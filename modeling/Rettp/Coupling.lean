import Rettp.Lockstep
import Rettp.ParserSimulation

/-!
# What the parser looks at

A parser function sees the tokens before the end, where the end is, the token before the cursor
and the nesting, and it leaves its mark by moving over tokens, recording errors and nesting.
`Coupling S` says that a relation between two parsers fixes what is seen and survives every mark;
`Coupled f` says that the function `f` keeps every such relation, with equal results on both
sides. It is proved once for each function, and each coupling then gives a property of them all:
two parsers that differ in their errors, or in whether the tokens end in an end-of-input token,
run alike; and what one run does to the tokens is an invariant.

A coupling has to survive a step over the keyword of a block only where a nesting limit has been
exceeded: only the skip over a refused container steps over one without looking.
-/

namespace Rettp

variable [Platform]

open Recorder (Lockstep)

/-! ## What is seen -/

namespace Parser

/-- The tokens before the end. -/
def live (p : Parser) : List Token := p.rest.takeWhile (!·.kind.isEof)

/-- The kind of the next token, unless the end is reached. -/
def next (p : Parser) : Option TokenKind := p.kinds.head?

/-- Where the end is: at its token, or after the last token. -/
def endSpan (p : Parser) : SourceSpan :=
  match p.rest.dropWhile (!·.kind.isEof) with
  | t :: _ => t.span
  | [] =>
    let last := (p.rest.getLast?.or p.previous).elim 0 (·.span.end_)
    ⟨last, last⟩

/-- A nesting limit has been exceeded. -/
def Limited (p : Parser) : Prop :=
  ∃ e ∈ p.errors, ∃ limit, e.kind = .nestingLimitExceeded limit

/-- A parser that has recorded one more error. -/
def report (p : Parser) (kind : ParserErrorKind) (span : SourceSpan) : Parser :=
  { p with errors := p.errors ++ [⟨kind, span⟩] }

/-- A parser at another depth of nesting. -/
def atDepth (p : Parser) (depth : Nat) : Parser := { p with nestingDepth := depth }

/-- The spans that an error may be recorded at: of the next token and of the one before. -/
def Seen (p : Parser) (span : SourceSpan) : Prop :=
  span = p.currentSpan ∨ ∃ t, p.previous = some t ∧ span = t.span

/-- The next token may be stepped over. -/
def Skippable (p : Parser) : Prop :=
  p.Limited ∨ ∀ kind ∈ p.next, kind.isOuterBlockBoundary = false

end Parser

section
omit [Platform]

/-- The kinds in front of a parser are those of its live tokens. -/
theorem kinds_eq (p : Parser) : p.kinds = p.live.map (·.kind) := by
  unfold Parser.kinds Parser.live
  induction p.rest with
  | nil => rfl
  | cons t rest ih =>
    cases h : t.kind.isEof with
    | true => simp [Parser.upToEof, h]
    | false => simp [Parser.upToEof, h, ih]

/-- The next kind is that of the next live token. -/
theorem next_eq (p : Parser) : p.next = p.live.head?.map (·.kind) := by
  rw [Parser.next, kinds_eq, List.head?_map]

theorem next_of_live {p : Parser} {t : Token} {live : List Token} (h : p.live = t :: live) :
    p.next = some t.kind := by
  rw [next_eq, h]
  rfl

/-- A next kind is that of a live token. -/
theorem live_of_next {p : Parser} {kind : TokenKind} (h : p.next = some kind) :
    ∃ t live, p.live = t :: live ∧ t.kind = kind := by
  cases hlive : p.live with
  | nil =>
    rw [next_eq, hlive] at h
    cases h
  | cons t live =>
    rw [next_of_live hlive] at h
    exact ⟨t, live, rfl, Option.some.inj h⟩

/-- At the end no token is live. -/
theorem next_eq_none {p : Parser} : p.next = none ↔ p.live = [] := by
  rw [next_eq, Option.map_eq_none_iff, List.head?_eq_none_iff]

theorem remaining_eq (p : Parser) : (Parser.upToEof p.rest).length = p.live.length := by
  change p.kinds.length = _
  rw [kinds_eq, List.length_map]

/-- A live token stands in front of the others. -/
theorem live_cons {p : Parser} {t : Token} {live : List Token} (h : p.live = t :: live) :
    t.kind.isEof = false ∧ ∃ rest, p.rest = t :: rest ∧ rest.takeWhile (!·.kind.isEof) = live := by
  unfold Parser.live at h
  cases hrest : p.rest with
  | nil =>
    rw [hrest] at h
    cases h
  | cons u rest =>
    rw [hrest] at h
    cases hu : u.kind.isEof with
    | true => simp [hu] at h
    | false =>
      rw [List.takeWhile_cons_of_pos (by simp [hu])] at h
      obtain ⟨rfl, rfl⟩ := List.cons.inj h
      exact ⟨hu, rest, rfl, rfl⟩

/-- At the end, with or without a token for it. -/
theorem rest_of_live_nil {p : Parser} (h : p.live = []) :
    p.rest = [] ∨ ∃ t rest, p.rest = t :: rest ∧ t.kind = .eof := by
  unfold Parser.live at h
  cases hrest : p.rest with
  | nil => exact .inl rfl
  | cons t rest =>
    rw [hrest] at h
    cases ht : t.kind.isEof with
    | true => exact .inr ⟨t, rest, rfl, TokenKind.eq_eof ht⟩
    | false => simp [ht] at h

/-- The next kind is not the end. -/
theorem head_of_next {p : Parser} {kind : TokenKind} (h : p.next = some kind) :
    kind.isEof = false ∧ p.head = some kind := by
  have hsame := sameNext p
  rw [show p.kinds.head? = some kind from h] at hsame
  generalize p.head = head at hsame
  cases hsame with
  | token hkind => exact ⟨hkind, rfl⟩

/-- Without a next kind the parser stands at the end. -/
theorem head_of_next_none {p : Parser} (h : p.next = none) : p.head = none ∨ p.head = some .eof := by
  have hsame := sameNext p
  rw [show p.kinds.head? = none from h] at hsame
  generalize p.head = head at hsame
  cases hsame with
  | none => exact .inl rfl
  | eof => exact .inr rfl

/-- One step forward, unless the end is reached. -/
theorem bump_of_live_nil {p : Parser} (h : p.live = []) : p.bump = p := by
  unfold Parser.bump
  rcases rest_of_live_nil h with hrest | ⟨t, rest, hrest, ht⟩
  · rw [hrest]
  · simp [hrest, ht, TokenKind.isEof]

/-- Taking a live token. -/
theorem bump_of_live_cons {p : Parser} {t : Token} {live : List Token} (h : p.live = t :: live) :
    p.bump.live = live ∧ p.bump.previous = some t ∧ p.rest = t :: p.bump.rest := by
  obtain ⟨ht, rest, hrest, hlive⟩ := live_cons h
  unfold Parser.bump Parser.live
  simp [hrest, ht, hlive]

/-- The token that was taken is the previous one. -/
theorem bump_previous (p : Parser) : p.bump.previous = p.live.head?.or p.previous := by
  cases h : p.live with
  | nil => rw [bump_of_live_nil h]; rfl
  | cons t live => exact (bump_of_live_cons h).2.1

/-- Taking a token does not move the end. -/
theorem bump_endSpan (p : Parser) : p.bump.endSpan = p.endSpan := by
  cases h : p.live with
  | nil => rw [bump_of_live_nil h]
  | cons t live =>
    obtain ⟨-, hprevious, hrest⟩ := bump_of_live_cons h
    have ht := (live_cons h).1
    unfold Parser.endSpan
    rw [hprevious, hrest, List.dropWhile_cons_of_pos (by simp [ht]), List.getLast?_cons]
    cases p.bump.rest.getLast? <;> rfl

/-- The place of a parser, from its live tokens. -/
theorem currentSpan_eq (p : Parser) :
    p.currentSpan = (p.live.head?.map (·.span)).getD p.endSpan := by
  cases h : p.live with
  | nil =>
    unfold Parser.currentSpan Parser.endSpan
    rcases rest_of_live_nil h with hrest | ⟨t, rest, hrest, ht⟩
    · rw [hrest]
      rfl
    · simp [hrest, ht, TokenKind.isEof]
  | cons t live =>
    obtain ⟨-, rest, hrest, -⟩ := live_cons h
    unfold Parser.currentSpan
    rw [hrest]
    rfl

end

/-! ## Couplings -/

/-- A relation between two parsers at a nesting depth that fixes what is seen and survives what
a program does. -/
structure Coupling (S : Nat → Parser → Parser → Prop) : Prop where
  live : ∀ {d p p'}, S d p p' → p.live = p'.live
  endSpan : ∀ {d p p'}, S d p p' → p.endSpan = p'.endSpan
  previous : ∀ {d p p'}, S d p p' → p.previous = p'.previous
  nesting : ∀ {d p p'}, S d p p' → p.nesting = p'.nesting
  depth : ∀ {d p p'}, S d p p' → p.nestingDepth = d
  bump : ∀ {d p p'}, S d p p' → p.Skippable → S d p.bump p'.bump
  report : ∀ {d p p'} kind {span}, S d p p' → p.Seen span →
    S d (p.report kind span) (p'.report kind span)
  atDepth : ∀ {d p p'} n, S d p p' → S n (p.atDepth n) (p'.atDepth n)

namespace Coupling

variable {S : Nat → Parser → Parser → Prop} {d : Nat} {p p' : Parser}

omit [Platform]

theorem next (hS : Coupling S) (h : S d p p') : p.next = p'.next := by
  rw [next_eq, next_eq, hS.live h]

theorem currentSpan (hS : Coupling S) (h : S d p p') : p.currentSpan = p'.currentSpan := by
  rw [currentSpan_eq, currentSpan_eq, hS.live h, hS.endSpan h]

theorem spanFrom (hS : Coupling S) (h : S d p p') (start : Nat) :
    p.spanFrom start = p'.spanFrom start := by
  rw [Parser.spanFrom, Parser.spanFrom, hS.previous h]

end Coupling

/-- Where the next token is as `H` says, the program keeps every coupling. -/
structure CoupledWhen {α : Type} (H : Option TokenKind → Prop) (f : ParserM α) : Prop where
  keeps : ∀ {S}, Coupling S → ∀ d, Lockstep (fun p p' => S d p p' ∧ H p.next) (S d) f f

/-- Whatever the next token is, the program keeps every coupling. -/
abbrev Coupled {α : Type} (f : ParserM α) : Prop := CoupledWhen (fun _ => True) f

/-- The program does not touch the tokens. -/
def Stays {α : Type} (f : ParserM α) : Prop := ∀ p, (f.run p).2.kinds = p.kinds

section
omit [Platform]

variable {α β : Type} {H : Option TokenKind → Prop}

/-- What keeps coupled parsers together does so on a condition. -/
theorem Coupled.when {f : ParserM α} (hf : Coupled f) : CoupledWhen H f :=
  ⟨fun hS d => (hf.keeps hS d).conseq (fun _ _ h => ⟨h.1, trivial⟩) fun _ _ h => h⟩

namespace CoupledWhen

theorem pure (a : α) : CoupledWhen H (Pure.pure a : ParserM α) :=
  ⟨fun _ _ _ _ h => ⟨rfl, h.1⟩⟩

/-- One after the other. -/
theorem bind {f : ParserM α} {k : α → ParserM β} (hf : CoupledWhen H f) (hk : ∀ a, Coupled (k a)) :
    CoupledWhen H (f >>= k) where
  keeps hS d := (hf.keeps hS d).bind fun a =>
    ((hk a).keeps hS d).conseq (fun _ _ h => ⟨h, trivial⟩) fun _ _ h => h

/-- After a program that does not touch the tokens, the next token is still the same. -/
theorem bind_stay {f : ParserM α} {k : α → ParserM β} (hf : CoupledWhen H f) (hstay : Stays f)
    (hk : ∀ a, CoupledWhen H (k a)) : CoupledWhen H (f >>= k) where
  keeps := by
    intro S hS d p p' h
    obtain ⟨heq, hS'⟩ := hf.keeps hS d p p' h
    rw [Recorder.run_bind, Recorder.run_bind, ← heq]
    refine (hk _).keeps hS d _ _ ⟨hS', ?_⟩
    rw [Parser.next, hstay p]
    exact h.2

/-- A look at what every coupling fixes. -/
theorem read {get : Parser → α}
    (hget : ∀ {S}, Coupling S → ∀ {d p p'}, S d p p' → get p = get p') :
    CoupledWhen H (Recorder.read get : ParserM α) :=
  ⟨fun hS _ _ _ h => ⟨hget hS h.1, h.1⟩⟩

/-- A look at the parser, which coupled parsers answer alike. -/
theorem look {get : Parser → α} {k : α → ParserM β}
    (hget : ∀ {S}, Coupling S → ∀ {d p p'}, S d p p' → get p = get p')
    (hk : ∀ a, CoupledWhen H (k a)) : CoupledWhen H (Recorder.read get >>= k) :=
  (read hget).bind_stay (fun _ => rfl) hk

theorem ite {c : Prop} [Decidable c] {f g : ParserM α} (hf : c → CoupledWhen H f)
    (hg : ¬ c → CoupledWhen H g) : CoupledWhen H (if c then f else g) :=
  ⟨fun hS d => .ite (fun hc => (hf hc).keeps hS d) fun hc => (hg hc).keeps hS d⟩

end CoupledWhen

/-- Coupled parsers stand at one place. -/
theorem currentSpan_look {k : SourceSpan → ParserM β} (hk : ∀ span, CoupledWhen H (k span)) :
    CoupledWhen H (currentSpan >>= k) :=
  .look (fun hS _ _ _ h => hS.currentSpan h) hk

/-- Coupled parsers have read up to one place. -/
theorem spanFrom_look {start : Nat} {k : SourceSpan → ParserM β}
    (hk : ∀ span, CoupledWhen H (k span)) : CoupledWhen H (spanFrom start >>= k) :=
  .look (fun hS _ _ _ h => hS.spanFrom h start) hk

/-- A kind that is not the end is next on both sides alike. -/
theorem check_coupled {kind : TokenKind} (hkind : kind.isEof = false) :
    CoupledWhen H (check kind) := by
  refine .read fun hS _ p p' h => ?_
  rw [head_any_discriminant hkind, head_any_discriminant hkind]
  exact congrArg (Option.any _) (hS.next h)

/-- Coupled parsers see one kind. -/
theorem check_look {kind : TokenKind} (hkind : kind.isEof = false) {k : Bool → ParserM β}
    (hk : ∀ is, CoupledWhen H (k is)) : CoupledWhen H (check kind >>= k) :=
  (check_coupled hkind).bind_stay (fun _ => rfl) hk

/-- The case split on the next token. At the end it must not matter whether there is a token. -/
theorem peekKind_look {k : Option TokenKind → ParserM β}
    (hend : H none → ∀ p : Parser, p.live = [] → (k (some .eof)).run p = (k none).run p)
    (hsome : ∀ kind, kind.isEof = false → H (some kind) →
      CoupledWhen (· = some kind) (k (some kind)))
    (hnone : H none → CoupledWhen (· = none) (k none)) : CoupledWhen H (peekKind >>= k) := by
  refine ⟨fun {S} hS d p p' ⟨h, hH⟩ => ?_⟩
  have hrun : H none → ∀ q : Parser, q.next = none → (k q.head).run q = (k none).run q := by
    intro hH q hq
    rcases head_of_next_none hq with hhead | hhead
    · rw [hhead]
    · rw [hhead]
      exact hend hH q (next_eq_none.mp hq)
  have hnext := hS.next h
  change ((k p.head).run p).1 = ((k p'.head).run p').1 ∧ S d ((k p.head).run p).2 ((k p'.head).run p').2
  cases hp : p.next with
  | none =>
    rw [hrun (hp ▸ hH) p hp, hrun (hp ▸ hH) p' (hnext.symm.trans hp)]
    exact (hnone (hp ▸ hH)).keeps hS d p p' ⟨h, hp⟩
  | some kind =>
    obtain ⟨hkind, hhead⟩ := head_of_next hp
    rw [hhead, (head_of_next (hnext.symm.trans hp)).2]
    exact (hsome kind hkind (hp ▸ hH)).keeps hS d p p' ⟨h, hp⟩

/-! ## Primitives -/

/-- Coupled parsers take one token. -/
theorem bump_coupled (hH : ∀ kind, H (some kind) → kind.isOuterBlockBoundary = false) :
    CoupledWhen H bump := by
  refine ⟨fun hS d p p' ⟨h, hnext⟩ => ⟨rfl, hS.bump h (.inr fun kind hkind => hH kind ?_)⟩⟩
  rw [← Option.mem_def.mp hkind]
  exact hnext

theorem bump_of_kind {kind : TokenKind} (hkind : kind.isOuterBlockBoundary = false) :
    CoupledWhen (· = some kind) bump :=
  bump_coupled fun _ h => Option.some.inj h ▸ hkind

/-- A kind inside of a block starts no outer one. -/
theorem enclosed_kind {kind kind' : TokenKind} (hkind : kind.isOuterBlockBoundary = false)
    (h : (kind'.discriminant == kind.discriminant) = true) : kind'.isOuterBlockBoundary = false := by
  cases hkind' : kind'.isOuterBlockBoundary with
  | false => rfl
  | true =>
    have hbare : kind'.isBare = true := by cases kind' <;> first | rfl | cases hkind'
    rw [(TokenKind.discriminant_eq_iff hbare).mp (beq_iff_eq.mp h).symm, hkind'] at hkind
    cases hkind

/-- A token of a kind that is not the end. -/
theorem take_eq {kind : TokenKind} (heof : kind.isEof = false) (p : Parser) :
    (take kind).run p =
      match p.live with
      | t :: _ =>
        if t.kind.discriminant == kind.discriminant then (some t, p.bump) else (none, p)
      | [] => (none, p) := by
  rw [take_run, head_any_discriminant heof, show p.kinds.head? = p.next from rfl, next_eq]
  cases h : p.live with
  | nil => rfl
  | cons t live =>
    obtain ⟨-, rest, hrest, -⟩ := live_cons h
    rw [hrest]
    rfl

/-- Coupled parsers take the same token, or none. -/
theorem take_coupled {kind : TokenKind} (heof : kind.isEof = false)
    (hkind : kind.isOuterBlockBoundary = false) : CoupledWhen H (take kind) := by
  refine ⟨fun {S} hS d p p' ⟨h, _⟩ => ?_⟩
  rw [take_eq heof, take_eq heof, ← hS.live h]
  cases hlive : p.live with
  | nil => exact ⟨rfl, h⟩
  | cons t live =>
    dsimp only
    split
    · next hsame =>
      refine ⟨rfl, hS.bump h (.inr fun kind' hkind' => ?_)⟩
      rw [next_eq, hlive] at hkind'
      exact Option.some.inj hkind' ▸ enclosed_kind hkind hsame
    · exact ⟨rfl, h⟩

/-- Coupled parsers record the same error. -/
theorem pushErrorIf_coupled (c : Bool) (kind : ParserErrorKind) :
    CoupledWhen H (pushErrorIf c kind) := by
  refine .ite (fun _ => ⟨fun {S} hS d p p' ⟨h, _⟩ => ?_⟩) fun _ => .pure ()
  have hreport : S d (p.report kind p.currentSpan) (p'.report kind p'.currentSpan) := by
    rw [← hS.currentSpan h]
    exact hS.report kind h (.inl rfl)
  exact ⟨rfl, hreport⟩

end

section
variable {α β : Type} {H : Option TokenKind → Prop}

/-- What is recorded where something else was expected. -/
theorem expected_run (description : String) (p : Parser) :
    (expected description).run p =
      ((), p.report (p.next.elim (.unexpectedEof description) fun kind =>
        .unexpectedToken description (tokenDescription kind)) p.currentSpan) := by
  rw [expected, Recorder.run_bind, peek, Recorder.run_read]
  cases h : p.live with
  | nil =>
    rw [next_eq_none.mpr h]
    rcases rest_of_live_nil h with hrest | ⟨t, rest, hrest, ht⟩
    · rw [hrest]
      rfl
    · rw [hrest, List.head?_cons]
      dsimp only
      rw [if_pos (by rw [ht]; rfl)]
      rfl
  | cons t live =>
    obtain ⟨ht, rest, hrest, -⟩ := live_cons h
    rw [next_eq, h, currentSpan_eq, h, hrest, List.head?_cons]
    dsimp only
    rw [if_neg (by rw [ht]; exact Bool.false_ne_true)]
    rfl

/-- Coupled parsers record what they expected. -/
theorem expected_coupled (description : String) : CoupledWhen H (expected description) := by
  refine ⟨fun hS d p p' ⟨h, _⟩ => ?_⟩
  rw [expected_run, expected_run, ← hS.next h, ← hS.currentSpan h]
  exact ⟨rfl, hS.report _ h (.inl rfl)⟩

theorem expected_live (description : String) (p : Parser) :
    ((expected description).run p).2.live = p.live := by
  rw [expected_run]
  rfl

theorem expected_stays (description : String) : Stays (expected description) := by
  intro p
  rw [expected_run]
  rfl

end

section
omit [Platform]

variable {α β : Type} {H : Option TokenKind → Prop}

/-- Coupled parsers skip the same comma. -/
theorem skipOptionalComma_coupled : CoupledWhen H skipOptionalComma :=
  (take_coupled rfl rfl).bind fun _ => .pure ()

/-- Coupled parsers see the same contextual keyword. -/
theorem takeContextualIdentifier_coupled (word : String) :
    CoupledWhen H (takeContextualIdentifier word) := by
  refine peekKind_look (fun _ _ _ => rfl) (fun kind _ _ => ?_) fun _ => .pure false
  split
  · next heq =>
    cases heq
    exact .ite (fun _ => (bump_of_kind rfl).bind fun _ => .pure true) fun _ => .pure false
  · exact .pure false

/-- No key starts an outer block. -/
theorem keyText_inner {kind : TokenKind} {value : String} (h : keyText kind = some value) :
    kind.isOuterBlockBoundary = false := by
  cases kind <;> first | rfl | cases h

/-- Coupled parsers read the same key. -/
theorem objectKey_coupled : CoupledWhen H objectKey := by
  refine currentSpan_look fun span => peekKind_look (fun _ _ _ => rfl) (fun kind _ _ => ?_) fun _ =>
    .pure none
  split
  · next value hvalue => exact (bump_of_kind (keyText_inner hvalue)).bind fun _ => .pure _
  · exact .pure none

/-- Coupled parsers drop the same token. -/
theorem discardUnexpectedTerminal_coupled : CoupledWhen H discardUnexpectedTerminal := by
  refine peekKind_look (fun _ _ _ => rfl) (fun kind _ _ => .ite (fun _ => .pure ()) fun h => ?_)
    fun _ => .pure ()
  refine bump_of_kind ?_
  cases kind <;> first | rfl | exact absurd rfl h

theorem discardUnexpectedTerminal_at_end {p : Parser} (h : p.live = []) :
    discardUnexpectedTerminal.run p = ((), p) := by
  rw [discardUnexpectedTerminal, Recorder.run_bind, peekKind, Recorder.run_read]
  rcases head_of_next_none (next_eq_none.mpr h) with hhead | hhead <;> rw [hhead] <;> rfl

end

section
variable {α β : Type} {H : Option TokenKind → Prop}

/-- Coupled parsers demand the same token. -/
theorem consume_coupled {kind : TokenKind} (heof : kind.isEof = false)
    (hkind : kind.isOuterBlockBoundary = false) (description : String) :
    CoupledWhen H (consume kind description) := by
  refine (take_coupled heof hkind).bind fun token => ?_
  cases token with
  | some token => exact .pure _
  | none => exact (expected_coupled description).bind fun _ => .pure none

/-- Coupled parsers demand the same keyword. -/
theorem consumeStart_coupled {kind : TokenKind} (heof : kind.isEof = false)
    (hkind : kind.isOuterBlockBoundary = false) (description : String) :
    CoupledWhen H (consumeStart kind description) := by
  refine (consume_coupled heof hkind description).bind fun token => ?_
  cases token with
  | some token => exact .pure _
  | none => exact currentSpan_look fun _ => .pure _

/-- Coupled parsers read a construct and the token that closes it. -/
theorem closed_coupled {close : TokenKind} (heof : close.isEof = false)
    (hclose : close.isOuterBlockBoundary = false) (description : String) {inner : ParserM α}
    (hinner : CoupledWhen H inner) : CoupledWhen H (closed close description inner) :=
  hinner.bind fun _ => (consume_coupled heof hclose description).bind fun _ => .pure _

/-- Coupled parsers read the same string literal. -/
theorem stringLiteral_coupled (description : String) :
    CoupledWhen H (stringLiteral description) := by
  have hother : ∀ (span : SourceSpan) {H : Option TokenKind → Prop},
      CoupledWhen H (do expected description; pure (⟨"", span⟩ : Spanned String)) :=
    fun _ => (expected_coupled description).bind fun _ => .pure _
  refine currentSpan_look fun span => peekKind_look (fun _ _ _ => rfl) (fun kind _ _ => ?_) fun _ =>
    hother span
  split
  · next heq =>
    cases heq
    exact (bump_of_kind rfl).bind fun _ => .pure _
  · exact hother span

end

/-! ## Loops -/

/-- The next token is there and not of a kind. -/
def Before (stop : TokenKind → Bool) (next : Option TokenKind) : Prop :=
  ∃ kind, next = some kind ∧ stop kind = false

section
omit [Platform]

variable {α β : Type} {H : Option TokenKind → Prop}

theorem not_at_end (p : Parser) : (!p.head.all (·.isEof)) = p.next.isSome := by
  cases h : p.next with
  | none => rcases head_of_next_none h with hhead | hhead <;> rw [hhead] <;> rfl
  | some kind =>
    obtain ⟨hkind, hhead⟩ := head_of_next h
    rw [hhead]
    simp [hkind]

/-- Another round starts before the end and before the kinds that stop the loop. -/
theorem again_eq (stop : TokenKind → Bool) (p : Parser) :
    (!p.head.all (·.isEof) && !p.head.any stop) = p.next.any fun kind => !stop kind := by
  cases h : p.next with
  | none => rcases head_of_next_none h with hhead | hhead <;> rw [hhead] <;> rfl
  | some kind =>
    obtain ⟨hkind, hhead⟩ := head_of_next h
    rw [hhead]
    simp [hkind]

theorem before_of_again {stop : TokenKind → Bool} {p : Parser}
    (h : (!p.head.all (·.isEof) && !p.head.any stop) = true) : Before stop p.next := by
  rw [again_eq, Option.any_eq_true] at h
  obtain ⟨kind, hkind, hstop⟩ := h
  exact ⟨kind, hkind, by simpa using hstop⟩

theorem again_of_before {stop : TokenKind → Bool} {p : Parser} (h : Before stop p.next) :
    (!p.head.all (·.isEof) && !p.head.any stop) = true := by
  obtain ⟨kind, hkind, hstop⟩ := h
  rw [again_eq, hkind]
  simp [hstop]

/-- The rounds of a loop. -/
def rounds (stop : TokenKind → Bool) (body : α → ParserM α) : Nat → α → ParserM α :=
  repeatWhile (fun _ => .read fun p => !p.head.all (·.isEof) && !p.head.any stop) body

/-- A loop as its rounds. -/
theorem untilNext_run (stop : TokenKind → Bool) (body : α → ParserM α) (start : α) (p : Parser) :
    (untilNext stop body start).run p = (rounds stop body p.live.length start).run p := by
  rw [← remaining_eq]
  rfl

/-- A loop that has come to its end. -/
theorem rounds_stop {stop : TokenKind → Bool} {p : Parser} (h : ¬ Before stop p.next)
    (body : α → ParserM α) (fuel : Nat) (a : α) : (rounds stop body fuel a).run p = (a, p) := by
  have hagain : (!p.head.all (·.isEof) && !p.head.any stop) = false :=
    Bool.eq_false_iff.mpr fun hc => h (before_of_again hc)
  cases fuel with
  | zero => rfl
  | succ fuel =>
    rw [rounds, repeatWhile, Recorder.run_bind, Recorder.run_read, hagain]
    rfl

/-- A loop that goes on for one more round. -/
theorem rounds_step {stop : TokenKind → Bool} {p : Parser} (h : Before stop p.next)
    (body : α → ParserM α) (fuel : Nat) (a : α) :
    (rounds stop body (fuel + 1) a).run p = (body a >>= rounds stop body fuel).run p := by
  rw [rounds, repeatWhile, Recorder.run_bind, Recorder.run_read, again_of_before h]
  rfl

/-- Before the end there is a token left. -/
theorem live_length_of_before {stop : TokenKind → Bool} {p : Parser} (h : Before stop p.next) :
    ∃ fuel, p.live.length = fuel + 1 := by
  obtain ⟨kind, hkind, -⟩ := h
  obtain ⟨t, live, hlive, -⟩ := live_of_next hkind
  exact ⟨live.length, congrArg List.length hlive⟩

/-- **A loop keeps coupled parsers together** if its rounds do. -/
theorem untilNext_coupled {stop : TokenKind → Bool} {body : α → ParserM α}
    (hbody : ∀ a, CoupledWhen (Before stop) (body a)) (start : α) :
    CoupledWhen H (untilNext stop body start) := by
  refine .look (fun hS d p p' h => ?_) fun fuel => Coupled.when ⟨fun {S} hS d => ?_⟩
  · rw [remaining_eq, remaining_eq, hS.live h]
  · refine (Lockstep.loop (S := S d) _ _ (fun _ p p' h => ?_) (fun a => ?_) fuel start).conseq
      (fun _ _ h => h.1) fun _ _ h => h
    · rw [again_eq, again_eq, hS.next h]
    · exact ((hbody a).keeps hS d).conseq (fun _ _ h => ⟨h.1, before_of_again h.2⟩) fun _ _ h => h

theorem inner_of_before {stop : TokenKind → Bool} (hcore : stop .core = true)
    (hpipeline : stop .pipeline = true) {kind : TokenKind} (h : Before stop (some kind)) :
    kind.isOuterBlockBoundary = false := by
  obtain ⟨kind', heq, hstop⟩ := h
  cases heq
  cases kind <;> first | rfl | simp [hcore, hpipeline] at hstop

/-- A skip that stops before the keyword of a block. -/
theorem skipTo_coupled {stop : TokenKind → Bool} (hcore : stop .core = true)
    (hpipeline : stop .pipeline = true) : CoupledWhen H (skipTo stop) :=
  untilNext_coupled (fun _ => bump_coupled fun _ h => inner_of_before hcore hpipeline h) ()

end

/-! ## Containers -/

section
omit [Platform]

variable {α β : Type} {H : Option TokenKind → Prop}

/-- The skip over a container that was refused steps over every kind of token. -/
theorem skipBalancedContainer_keeps {S : Nat → Parser → Parser → Prop} (hS : Coupling S) (d : Nat) :
    Lockstep (fun p p' => S d p p' ∧ p.Limited) (S d) skipBalancedContainer
      skipBalancedContainer := by
  intro p p' ⟨h, hlimited⟩
  have hloop := Lockstep.loop (M := parserRecording) (S := fun p p' => S d p p' ∧ p.Limited)
    (fun depth p => !p.head.all (·.isEof) && decide (depth > 0))
    (fun depth => do
      let kind ← peekKind
      bump
      pure (depthAfter depth kind)) ?_ ?_ p.live.length 1 p p' ⟨h, hlimited⟩
  · change () = () ∧ S d (Recorder.run (repeatWhile _ _ (Parser.upToEof p.rest).length 1) p).2
      (Recorder.run (repeatWhile _ _ (Parser.upToEof p'.rest).length 1) p').2
    rw [remaining_eq, remaining_eq, ← hS.live h]
    exact ⟨rfl, hloop.2.1⟩
  · intro depth q q' hq
    rw [not_at_end, not_at_end, hS.next hq.1]
  · intro depth q q' ⟨⟨hq, hqlimited⟩, hagain⟩
    rw [not_at_end, Bool.and_eq_true, Option.isSome_iff_exists] at hagain
    obtain ⟨⟨kind, hkind⟩, -⟩ := hagain
    have hhead : q.head = q'.head :=
      (head_of_next hkind).2.trans (head_of_next ((hS.next hq).symm.trans hkind)).2.symm
    refine ⟨congrArg (depthAfter depth) hhead, hS.bump hq (.inl hqlimited), ?_⟩
    change Parser.Limited q.bump
    rw [Parser.Limited, (bump_fields q).2]
    exact hqlimited

/-- Parsing keeps a parser within its limit. -/
theorem limited_run {f : ParserM α} {p : Parser} (h : p.Limited) : (f.run p).2.Limited := by
  obtain ⟨e, he, hlimit⟩ := h
  exact ⟨e, (f.moves p).2.2.subset he, hlimit⟩

theorem report_limited (p : Parser) (limit : Nat) (span : SourceSpan) :
    (p.report (.nestingLimitExceeded limit) span).Limited :=
  ⟨_, List.mem_append_right _ (List.mem_singleton_self _), limit, rfl⟩

/-- What follows the token that opens a container: its contents one level deeper, or a skip. -/
def opened (t : Token) (inner : ParserM β) (result : β → SourceSpan → α)
    (refused : SourceSpan → α) : ParserM α := do
  if ← enterNesting t.span then
    let b ← inner
    let span ← spanFrom t.span.start
    exitNesting
    pure (result b span)
  else
    skipBalancedContainer
    return refused (← spanFrom t.span.start)

/-- What happens when a container is opened. -/
theorem opened_run (t : Token) (inner : ParserM β) (result : β → SourceSpan → α)
    (refused : SourceSpan → α) (p : Parser) :
    (opened t inner result refused).run p =
      if p.nestingDepth ≥ p.maxNestingDepth then
        Recorder.run (do skipBalancedContainer; return refused (← spanFrom t.span.start))
          (p.report (.nestingLimitExceeded p.maxNestingDepth) t.span)
      else Recorder.run (do
        let b ← inner
        let span ← spanFrom t.span.start
        exitNesting
        pure (result b span)) (p.atDepth (p.nestingDepth + 1)) := by
  change Recorder.run (if ((enterNesting t.span).run p).1 = true then _ else _) _ = _
  unfold enterNesting
  dsimp only
  split <;> rfl

section
variable {S : Nat → Parser → Parser → Prop}

/-- The skip over a container that is refused. -/
theorem refused_keeps (hS : Coupling S) {d : Nat} {t : Token} (refused : SourceSpan → α)
    {p p' : Parser} (h : S d p p') (hprevious : p.previous = some t) (limit : Nat) :
    let skip : ParserM α := do
      skipBalancedContainer
      return refused (← spanFrom t.span.start)
    let r := skip.run (p.report (.nestingLimitExceeded limit) t.span)
    let r' := skip.run (p'.report (.nestingLimitExceeded limit) t.span)
    r.1 = r'.1 ∧ S d r.2 r'.2 := by
  refine (Lockstep.bind (skipBalancedContainer_keeps hS d) fun _ => ?_) _ _
    ⟨hS.report _ h (.inr ⟨t, hprevious, rfl⟩), report_limited _ _ _⟩
  exact fun q q' hq => ⟨congrArg refused (hS.spanFrom hq _), hq⟩

/-- The way back out of a container. -/
theorem leave_keeps (hS : Coupling S) {d : Nat} (start : Nat) (result : SourceSpan → α)
    {p p' : Parser} (h : S (d + 1) p p') :
    let leave : ParserM α := do
      let span ← spanFrom start
      exitNesting
      pure (result span)
    (leave.run p).1 = (leave.run p').1 ∧ S d (leave.run p).2 (leave.run p').2 := by
  refine ⟨congrArg result (hS.spanFrom h _), ?_⟩
  change S d (p.atDepth (p.nestingDepth - 1)) (p'.atDepth (p'.nestingDepth - 1))
  have hdepth : p.nestingDepth = p'.nestingDepth := congrArg (·.depth) (hS.nesting h)
  rw [← hdepth, hS.depth h]
  exact hS.atDepth d h

/-- A container keeps parsers in lockstep. -/
theorem opened_keeps (hS : Coupling S) (d : Nat) (t : Token) {inner : ParserM β}
    (hinner : Coupled inner) (result : β → SourceSpan → α) (refused : SourceSpan → α) :
    Lockstep (fun p p' => S d p p' ∧ p.previous = some t) (S d) (opened t inner result refused)
      (opened t inner result refused) := by
  intro p p' ⟨h, hprevious⟩
  have hdepth : p.nestingDepth = p'.nestingDepth := congrArg (·.depth) (hS.nesting h)
  have hlimit : p.maxNestingDepth = p'.maxNestingDepth := congrArg (·.limit) (hS.nesting h)
  rw [opened_run, opened_run, ← hdepth, ← hlimit, hS.depth h]
  split
  · exact refused_keeps hS refused h hprevious _
  · exact (Lockstep.bind ((hinner.keeps hS (d + 1)).conseq (fun _ _ h => ⟨h, trivial⟩)
      fun _ _ h => h) fun b _ _ hq => leave_keeps hS _ (result b) hq) _ _ (hS.atDepth (d + 1) h)

end

/-- An optional token that is there has just been passed. -/
theorem take_previous {kind : TokenKind} (heof : kind.isEof = false) {p : Parser} {t : Token}
    (h : ((take kind).run p).1 = some t) : ((take kind).run p).2.previous = some t := by
  rw [take_eq heof] at h ⊢
  cases hlive : p.live with
  | nil =>
    rw [hlive] at h
    cases h
  | cons u live =>
    rw [hlive] at h
    dsimp only at h ⊢
    split at h
    · cases h
      rw [if_pos ‹_›]
      exact (bump_of_live_cons hlive).2.1
    · cases h

/-- After an optional token, what follows knows the token. -/
theorem take_bind {kind : TokenKind} (heof : kind.isEof = false)
    (hkind : kind.isOuterBlockBoundary = false) {k : Option Token → ParserM β}
    (hnone : Coupled (k none))
    (hsome : ∀ (t : Token) {S : Nat → Parser → Parser → Prop}, Coupling S → ∀ d,
      Lockstep (fun p p' => S d p p' ∧ p.previous = some t) (S d) (k (some t)) (k (some t))) :
    CoupledWhen H (take kind >>= k) := by
  refine ⟨fun {S} hS d p p' h => ?_⟩
  obtain ⟨heq, hS'⟩ := (take_coupled heof hkind).keeps hS d p p' h
  rw [Recorder.run_bind, Recorder.run_bind, ← heq]
  cases htoken : ((take kind).run p).1 with
  | none => exact hnone.keeps hS d _ _ ⟨hS', trivial⟩
  | some t =>
    exact hsome t hS d _ _ ⟨hS', take_previous heof htoken⟩

end

end Rettp
