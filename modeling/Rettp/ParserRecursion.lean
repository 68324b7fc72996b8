import Rettp.ParserProgress

/-!
# How deep the parser recurses

A container is only opened where fewer than the limit are open, so the parser of a nested value
is only called where one more container may be opened. Hence the recursion `parseValue` unrolls
never reaches its bottom: any program may stand there (`parseValueOver_run`), and `parseValue` is
a fixed point of its own body (`parseValue_fixed`), which is how the source defines it. The same
holds of nested object assertions.

`SameAt n f g` says that `f` and `g` do the same where at most `n` containers may still be opened.
-/

namespace Rettp

variable [Platform]

namespace Parser

/-- How many containers may still be opened. -/
def nestingLeft (p : Parser) : Nat := p.maxNestingDepth - p.nestingDepth

end Parser

/-- The program leaves the nesting as it was. -/
def Steady {α : Type} (f : ParserM α) : Prop := ∀ p, (f.run p).2.nestingDepth = p.nestingDepth

/-- Both programs do the same where at most `n` containers may still be opened. -/
def SameAt {α : Type} (n : Nat) (f g : ParserM α) : Prop :=
  ∀ p, p.nestingLeft ≤ n → f.run p = g.run p

section

variable {α β : Type} {n : Nat}

/-- What keeps coupled parsers together comes back to its depth. -/
theorem Coupled.steady {f : ParserM α} (hf : Coupled f) : Steady f :=
  fun p => (hf.moved p trivial).1

/-- So does what the predicate follows. -/
theorem FollowsAny.steady {f : ParserM α} {lacks : Parser → Bool} (hf : FollowsAny lacks f) :
    Steady f :=
  fun p => (hf.moved p trivial).1

omit [Platform]

theorem bump_steady : Steady bump := fun p => congrArg (·.depth) (bump_fields p).1

/-- As many levels are left as before. -/
theorem nestingLeft_run {f : ParserM α} {p : Parser}
    (hf : (f.run p).2.nestingDepth = p.nestingDepth) :
    (f.run p).2.nestingLeft = p.nestingLeft := by
  rw [Parser.nestingLeft, Parser.nestingLeft, hf, (f.moves p).2.1]

namespace SameAt

/-- A function does what it does. -/
theorem refl (f : ParserM α) : SameAt n f f := fun _ _ => rfl

/-- Functions that do the same first. -/
theorem bind_left {f g : ParserM α} (h : SameAt n f g) (k : α → ParserM β) :
    SameAt n (f >>= k) (g >>= k) := by
  intro p hp
  rw [Recorder.run_bind, Recorder.run_bind, h p hp]

/-- Functions that do the same afterwards. -/
theorem bind {f : ParserM α} (hf : Steady f) {k l : α → ParserM β} (h : ∀ a, SameAt n (k a) (l a)) :
    SameAt n (f >>= k) (f >>= l) :=
  fun p hp => h _ _ (nestingLeft_run (hf p) ▸ hp)

theorem ite {c : Prop} [Decidable c] {f g f' g' : ParserM α} (h : SameAt n f g)
    (h' : SameAt n f' g') : SameAt n (if c then f else f') (if c then g else g') := by
  split
  · exact h
  · exact h'

/-- Loops whose rounds do the same. -/
theorem loop {stop : TokenKind → Bool} {body body' : α → ParserM α}
    (hsteady : ∀ a p, Before stop p.next → ((body a).run p).2.nestingDepth = p.nestingDepth)
    (h : ∀ a, SameAt n (body a) (body' a)) (start : α) :
    SameAt n (untilNext stop body start) (untilNext stop body' start) := by
  have hrounds : ∀ fuel a, SameAt n (rounds stop body fuel a) (rounds stop body' fuel a) := by
    intro fuel
    induction fuel with
    | zero => exact fun a => .refl _
    | succ fuel ih =>
      intro a p hp
      by_cases hbefore : Before stop p.next
      · rw [rounds_step hbefore, rounds_step hbefore, Recorder.run_bind, Recorder.run_bind,
          ← h a p hp]
        exact ih _ _ (nestingLeft_run (hsteady a p hbefore) ▸ hp)
      · rw [rounds_stop hbefore, rounds_stop hbefore]
  intro p hp
  rw [untilNext_run, untilNext_run]
  exact hrounds _ _ p hp

/-- What is inside a container only matters where it may be opened. -/
theorem opened {inner inner' : ParserM β} (h : ∀ m < n, SameAt m inner inner') (t : Token)
    (result : β → SourceSpan → α) (refused : SourceSpan → α) :
    SameAt n (opened t inner result refused) (opened t inner' result refused) := by
  intro p hp
  rw [opened_run, opened_run]
  split
  · rfl
  · next hdepth =>
    unfold Parser.nestingLeft at hp
    have hinner : inner.run (p.atDepth (p.nestingDepth + 1)) =
        inner'.run (p.atDepth (p.nestingDepth + 1)) := by
      refine h (n - 1) (by omega) _ ?_
      change p.maxNestingDepth - (p.nestingDepth + 1) ≤ n - 1
      omega
    rw [Recorder.run_bind inner, Recorder.run_bind inner', hinner]

end SameAt

end

section

variable {α β : Type}

omit [Platform] in
theorem Steady.bind {f : ParserM α} {k : α → ParserM β} (hf : Steady f) (hk : ∀ a, Steady (k a)) :
    Steady (f >>= k) :=
  fun p => (hk _ _).trans (hf p)

theorem consumeStart_steady (kind : TokenKind) (description : String) :
    Steady (consumeStart kind description) := by
  have htake : Steady (take kind) := by
    intro p
    rw [take_run]
    split
    · exact bump_steady p
    · rfl
  have hconsume : Steady (consume kind description) := by
    refine htake.bind fun token => ?_
    cases token with
    | some token => exact fun _ => rfl
    | none => exact .bind (Coupled.steady (expected_coupled _)) fun _ _ => rfl
  refine hconsume.bind fun token => ?_
  cases token <;> exact fun _ => rfl

theorem parseCoreBlock_steady : Steady parseCoreBlock :=
  (consumeStart_steady _ _).bind fun start => FollowsAny.steady (coreBlockRest_follows start)

theorem parsePipelineBlock_steady : Steady parsePipelineBlock :=
  (consumeStart_steady _ _).bind fun start => FollowsAny.steady (pipelineBlockRest_follows start)

theorem parseTest_steady : Steady parseTest := FollowsAny.steady parseTest_follows

/-- Between two blocks the nesting is what it was. -/
theorem suiteItem_steady (items : SuiteItems) : Steady (suiteItem items) := by
  refine .bind (fun _ => rfl) fun kind => ?_
  split
  · exact .bind (Coupled.steady (pushErrorIf_coupled _ _)) fun _ =>
      parseCoreBlock_steady.bind fun _ _ => rfl
  · exact parsePipelineBlock_steady.bind fun _ _ => rfl
  · exact parseTest_steady.bind fun _ _ => rfl
  · exact .bind (Coupled.steady (expected_coupled _)) fun _ => bump_steady.bind fun _ =>
      .bind (Coupled.steady (show Coupled synchronizeSuite from skipTo_coupled rfl rfl)) fun _ _ => rfl

omit [Platform] in
theorem untilNext_steady {stop : TokenKind → Bool} {body : α → ParserM α}
    (hbody : ∀ a, Steady (body a)) (start : α) : Steady (untilNext stop body start) := by
  have hrounds : ∀ fuel a, Steady (rounds stop body fuel a) := by
    intro fuel
    induction fuel with
    | zero => exact fun _ _ => rfl
    | succ fuel ih =>
      intro a p
      by_cases hbefore : Before stop p.next
      · rw [rounds_step hbefore]
        exact (hbody a).bind ih p
      · rw [rounds_stop hbefore]
  intro p
  rw [untilNext_run]
  exact hrounds _ _ p

omit [Platform] in
theorem checkBlocks_steady (blocks : List BlockAst) (span : SourceSpan) :
    Steady (checkBlocks blocks span) := by
  refine .bind (fun _ => rfl) fun hasErrors p => ?_
  split <;> rfl

end

/-! ## Unrolled recursion -/

section
variable {α β : Type}

/-- A recursion whose calls nested more than `depth` deep are `deeper`. -/
def unrolled (body : ParserM α → ParserM α) (deeper : ParserM α) : Nat → ParserM α
  | 0 => body deeper
  | depth + 1 => body (unrolled body deeper depth)

/-- What stands for the calls of a recursion in which `depth` more are nested. -/
def below (body : ParserM α → ParserM α) (base : ParserM α) : Nat → ParserM α
  | 0 => base
  | depth + 1 => unrolled body base depth

/-- A recursion that opens a container before each call of itself. -/
structure Recursion (Nice : ParserM α → Prop) (body : ParserM α → ParserM α) : Prop where
  nice : ∀ {f}, Nice f → Nice (body f)
  same : ∀ {n f g}, Nice f → (∀ m < n, SameAt m f g) → SameAt n (body f) (body g)

omit [Platform]

/-- Unrolling further. -/
theorem unrolled_unrolled (body : ParserM α → ParserM α) (deeper : ParserM α) (depth more : Nat) :
    unrolled body deeper (depth + more + 1) = unrolled body (unrolled body deeper more) depth := by
  induction depth with
  | zero => rw [Nat.zero_add, unrolled, unrolled]
  | succ depth ih =>
    rw [show depth + 1 + more + 1 = depth + more + 1 + 1 by omega, unrolled, ih, unrolled]

namespace Recursion

variable {Nice : ParserM α → Prop} {body : ParserM α → ParserM α} {base : ParserM α}

theorem unrolled_nice (h : Recursion Nice body) (hbase : Nice base) (depth : Nat) :
    Nice (unrolled body base depth) := by
  induction depth with
  | zero => exact h.nice hbase
  | succ depth ih => exact h.nice ih

theorem below_nice (h : Recursion Nice body) (hbase : Nice base) (depth : Nat) :
    Nice (below body base depth) := by
  cases depth with
  | zero => exact hbase
  | succ depth => exact h.unrolled_nice hbase depth

/-- The bottom of the recursion is never reached. -/
theorem unrolled_same (h : Recursion Nice body) (hbase : Nice base) (deeper : ParserM α)
    (depth : Nat) : SameAt depth (unrolled body base depth) (unrolled body deeper depth) := by
  induction depth with
  | zero => exact h.same hbase fun m hm => absurd hm (Nat.not_lt_zero m)
  | succ depth ih =>
    refine h.same (h.unrolled_nice hbase depth) fun m hm p hp => ih p ?_
    omega

/-- **The depth of the recursion.** Where at most `depth` containers may still be opened, no call
is nested deeper: any program may stand for deeper ones. -/
theorem unrolled_run (h : Recursion Nice body) (hbase : Nice base) (deeper : ParserM α)
    {depth : Nat} {p : Parser} (hp : p.nestingLeft ≤ depth) :
    (unrolled body deeper depth).run p = (unrolled body base p.nestingLeft).run p := by
  rw [← h.unrolled_same hbase deeper depth p hp]
  rcases Nat.lt_or_ge p.nestingLeft depth with hlt | hge
  · obtain ⟨more, rfl⟩ := Nat.exists_eq_add_of_lt hlt
    rw [unrolled_unrolled]
    exact (h.unrolled_same hbase _ p.nestingLeft p (Nat.le_refl _)).symm
  · rw [Nat.le_antisymm hp hge]

/-- The same for a program that opens a container before each nested call. -/
theorem below_run (h : Recursion Nice body) (hbase : Nice base) (deeper : ParserM α)
    {f : ParserM α → ParserM β}
    (hf : ∀ {n g g'}, Nice g → (∀ m < n, SameAt m g g') → SameAt n (f g) (f g')) {depth : Nat}
    {p : Parser} (hp : p.nestingLeft ≤ depth) :
    (f (below body deeper depth)).run p = (f (below body base p.nestingLeft)).run p := by
  symm
  refine hf (n := p.nestingLeft) (h.below_nice hbase _) (fun m hm q hq => ?_) p (Nat.le_refl _)
  obtain ⟨left, hleft⟩ := Nat.exists_eq_add_one_of_ne_zero (Nat.ne_zero_of_lt hm)
  obtain ⟨depth', hdepth⟩ := Nat.exists_eq_add_one_of_ne_zero (show depth ≠ 0 by omega)
  rw [hleft, hdepth, below, below, h.unrolled_run hbase base (by omega),
    h.unrolled_run hbase deeper (by omega)]

/-- The unrolled recursion may be replaced by the whole one where a container has been opened. -/
theorem below_same (h : Recursion Nice body) (hbase : Nice base) {whole : ParserM α}
    (hwhole : ∀ p, whole.run p = (unrolled body base p.nestingLeft).run p) {f : ParserM α → ParserM β}
    (hf : ∀ {n g g'}, Nice g → (∀ m < n, SameAt m g g') → SameAt n (f g) (f g')) (p : Parser) :
    (f (below body base p.nestingLeft)).run p = (f whole).run p := by
  refine hf (n := p.nestingLeft) (h.below_nice hbase _) (fun m hm q hq => ?_) p (Nat.le_refl _)
  obtain ⟨depth, hdepth⟩ := Nat.exists_eq_add_one_of_ne_zero (Nat.ne_zero_of_lt hm)
  rw [hdepth, below, hwhole, h.unrolled_run hbase base (by omega)]

end Recursion

end

/-! ## Values -/

section
variable {n : Nat} {parseValue parseValue' : ParserM (Option ValueAst)}

/-- An entry depends on the parser of its value only. -/
theorem objectValueEntry_same (h : SameAt n parseValue parseValue')
    (entries : List ObjectValueEntryAst) :
    SameAt n (objectValueEntry parseValue entries) (objectValueEntry parseValue' entries) := by
  refine .bind (Coupled.steady objectKey_coupled) fun key => ?_
  cases key with
  | none => exact .refl _
  | some key => exact .bind (Coupled.steady (consume_coupled rfl rfl _)) fun _ => h.bind_left _

/-- An item depends on its parser only. -/
theorem arrayItem_same (h : SameAt n parseValue parseValue') (items : List ValueAst) :
    SameAt n (arrayItem parseValue items) (arrayItem parseValue' items) := h.bind_left _

/-- An object depends on the parser of its values only, one level deeper. -/
theorem parseObjectValueWith_same (hvalue : Coupled parseValue)
    (h : ∀ m < n, SameAt m parseValue parseValue') :
    SameAt n (parseObjectValueWith parseValue) (parseObjectValueWith parseValue') := by
  refine .bind (Coupled.steady (take_coupled rfl rfl)) fun brace => ?_
  cases brace with
  | none => exact .refl _
  | some t =>
    refine SameAt.opened (fun m hm => .bind_left (.loop (fun entries p _ => ?_) (fun entries =>
      objectValueEntry_same (h m hm) entries) []) _) t ObjectValueAst.mk _
    exact Coupled.steady (objectValueEntry_coupled hvalue entries) p

/-- An array depends on the parser of its items only, one level deeper. -/
theorem parseArrayValueWith_same (hvalue : Coupled parseValue)
    (h : ∀ m < n, SameAt m parseValue parseValue') :
    SameAt n (parseArrayValueWith parseValue) (parseArrayValueWith parseValue') := by
  refine .bind (Coupled.steady (take_coupled rfl rfl)) fun bracket => ?_
  cases bracket with
  | none => exact .refl _
  | some t =>
    refine SameAt.opened (fun m hm => .bind_left (.loop (fun items p _ => ?_) (fun items =>
      arrayItem_same (h m hm) items) []) _) t ArrayValueAst.mk _
    exact Coupled.steady (arrayItem_coupled hvalue items) p

/-- Nested values are only parsed where one more container may be opened. -/
theorem parseValueWith_same (hvalue : Coupled parseValue)
    (h : ∀ m < n, SameAt m parseValue parseValue') :
    SameAt n (parseValueWith parseValue) (parseValueWith parseValue') := by
  refine .bind (fun _ => rfl) fun span => .bind (fun _ => rfl) fun kind => ?_
  split
  case h_7 => exact (parseArrayValueWith_same hvalue h).bind_left _
  case h_8 => exact (parseObjectValueWith_same hvalue h).bind_left _
  all_goals exact .refl _

end

/-- Literals are a recursion on the levels that are left. -/
theorem parseValueWith_recursion : Recursion Coupled parseValueWith :=
  ⟨parseValueWith_coupled, parseValueWith_same⟩

/-- A literal, unrolled as far as the limit allows. -/
theorem parseValue_run (p : Parser) :
    parseValue.run p = (unrolled parseValueWith (pure none) p.nestingLeft).run p := by
  have hat : ∀ depth, parseValueAt depth = unrolled parseValueWith (pure none) depth := by
    intro depth
    induction depth with
    | zero => rfl
    | succ depth ih => rw [parseValueAt, unrolled, ih]
  rw [← hat]
  rfl

/-- The unrolled recursion is the recursion of the source. -/
theorem parseValue_fixed (p : Parser) : parseValue.run p = (parseValueWith parseValue).run p := by
  rw [← parseValueWith_recursion.below_same (.pure none) parseValue_run parseValueWith_same,
    parseValue_run]
  cases p.nestingLeft <;> rfl

/-! ## Object assertions -/

/-- A type leaves the depth as it is. -/
theorem parseAssertionType_moved (p : Parser) :
    (parseAssertionType.run p).2.nestingDepth = p.nestingDepth ∧
      Moved p (parseAssertionType.run p).2 := by
  by_cases hrest : p.rest = []
  · obtain ⟨previous, rest, depth, limit, errors⟩ := p
    cases hrest
    exact ⟨rfl, .refl _⟩
  · have hwatching := Watching.of_rest (Moved.coupling p) fun ⟨h, _⟩ => h ▸ Iff.rfl
    exact (@parseAssertionType_keeps _ _ hwatching false _ p p ⟨rfl, rfl, .refl p⟩ hrest).2.2

/-- The program follows missing types somehow. -/
def FollowsSome {α : Type} (f : ParserM α) : Prop := ∃ lacks, FollowsAny lacks f

section
variable {n : Nat} {parseNested parseNested' : ParserM ObjectAssertionAst}

/-- What follows the type of a field depends on the parser of nested fields only. -/
theorem parseFieldOperand_same (h : SameAt n parseNested parseNested')
    (expectedType : Option (Spanned AssertionTypeAst)) :
    SameAt n (parseFieldOperand parseNested expectedType)
      (parseFieldOperand parseNested' expectedType) :=
  .bind (Coupled.steady (take_coupled rfl rfl)) fun _ => .ite (.refl _) <|
    .bind (fun _ => rfl) fun _ => .ite (h.bind_left _) (.refl _)

/-- A field depends on the parser of nested fields only. -/
theorem parseFieldAssertion_same (h : SameAt n parseNested parseNested') :
    SameAt n (parseFieldAssertion parseNested) (parseFieldAssertion parseNested') := by
  refine .bind (Coupled.steady objectKey_coupled) fun key => ?_
  cases key with
  | none => exact .refl _
  | some name =>
    refine .bind (Coupled.steady (take_coupled rfl rfl)) fun _ => .ite (.bind_left ?_ _)
      (((parseFieldOperand_same h none).bind_left _).bind_left _)
    exact .bind (fun p => (parseAssertionType_moved p).1) fun type =>
      (parseFieldOperand_same h type).bind_left _

/-- An object assertion depends on the parser of nested fields only, one level deeper. -/
theorem parseObjectAssertionWith_same (hnested : FollowsSome parseNested)
    (h : ∀ m < n, SameAt m parseNested parseNested') (mode : ObjectMatchModeAst) :
    SameAt n (parseObjectAssertionWith parseNested mode)
      (parseObjectAssertionWith parseNested' mode) := by
  refine .bind (Coupled.steady (take_coupled rfl rfl)) fun brace => ?_
  cases brace with
  | none => exact .refl _
  | some t =>
    refine SameAt.opened (fun m hm => .bind_left (.loop (fun fields p _ => ?_) (fun fields =>
      (parseFieldAssertion_same (h m hm)).bind_left _) []) _) t (ObjectAssertionAst.mk mode) _
    obtain ⟨lacks, hlacks⟩ := hnested
    exact FollowsAny.steady (fieldAssertion_follows hlacks fields) p

end

/-- Object assertions are a recursion on the levels that are left. -/
theorem parseObjectAssertionWith_recursion :
    Recursion FollowsSome fun nested => parseObjectAssertionWith nested .partially where
  nice := fun ⟨_, h⟩ => ⟨_, parseObjectAssertionWith_follows h .partially⟩
  same := fun h hsame => parseObjectAssertionWith_same h hsame .partially

/-- What stands for an assertion nested in none that may be opened. -/
def noAssertion : ParserM ObjectAssertionAst := pure ⟨.partially, [], ⟨0, 0⟩⟩

theorem noAssertion_follows : FollowsSome noAssertion := ⟨_, .of_coupled (.pure _)⟩

/-- An object assertion, unrolled by one level. -/
theorem parseObjectAssertion_run (mode : ObjectMatchModeAst) (p : Parser) :
    (parseObjectAssertion mode).run p = (parseObjectAssertionWith (below
      (fun nested => parseObjectAssertionWith nested .partially) noAssertion p.nestingLeft)
        mode).run p := by
  have hat : ∀ depth mode, parseObjectAssertionAt depth mode = parseObjectAssertionWith (below
      (fun nested => parseObjectAssertionWith nested .partially) noAssertion depth) mode := by
    intro depth
    induction depth with
    | zero => exact fun _ => rfl
    | succ depth ih =>
      intro mode
      rw [parseObjectAssertionAt, ih]
      cases depth <;> rfl
  rw [← hat]
  rfl

/-- The unrolled recursion is the recursion of the source. -/
theorem parseObjectAssertion_fixed (mode : ObjectMatchModeAst) (p : Parser) :
    (parseObjectAssertion mode).run p =
      (parseObjectAssertionWith (parseObjectAssertion .partially) mode).run p := by
  rw [parseObjectAssertion_run]
  refine parseObjectAssertionWith_recursion.below_same noAssertion_follows (fun q => ?_)
    (fun h hsame => parseObjectAssertionWith_same h hsame mode) p
  rw [parseObjectAssertion_run]
  cases q.nestingLeft <;> rfl

/-! ## Over any bottom -/

/-- A value whose values nested more than `depth` deep are parsed by `deeper`. -/
def parseValueOver (deeper : ParserM (Option ValueAst)) (depth : Nat) : ParserM (Option ValueAst) :=
  parseValueWith (below parseValueWith deeper depth)

/-- An assertion whose assertions nested more than `depth` deep are parsed by `deeper`. -/
def parseObjectAssertionOver (deeper : ParserM ObjectAssertionAst) (depth : Nat)
    (mode : ObjectMatchModeAst) : ParserM ObjectAssertionAst :=
  parseObjectAssertionWith
    (below (fun nested => parseObjectAssertionWith nested .partially) deeper depth) mode

/-- What is put below the limit is never reached by a literal. -/
theorem parseValueOver_run (deeper : ParserM (Option ValueAst)) {depth : Nat} {p : Parser}
    (h : p.nestingLeft ≤ depth) : (parseValueOver deeper depth).run p = parseValue.run p := by
  rw [parseValueOver, parseValueWith_recursion.below_run (.pure none) deeper parseValueWith_same h,
    parseValue_run]
  cases p.nestingLeft <;> rfl

/-- Nor by an object assertion. -/
theorem parseObjectAssertionOver_run (deeper : ParserM ObjectAssertionAst) {depth : Nat}
    (mode : ObjectMatchModeAst) {p : Parser} (h : p.nestingLeft ≤ depth) :
    (parseObjectAssertionOver deeper depth mode).run p = (parseObjectAssertion mode).run p := by
  rw [parseObjectAssertionOver, parseObjectAssertionWith_recursion.below_run noAssertion_follows deeper
    (fun h hsame => parseObjectAssertionWith_same h hsame mode) h, parseObjectAssertion_run]

end Rettp
