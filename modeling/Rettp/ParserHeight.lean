import Rettp.ParserRecursion
import Rettp.ValidationRules

/-!
# How deep a tree can be

The containers of a parsed tree are nested at most as deep as the limit; where a container was
refused or has no brace an empty one stands in its place, which may be one level deeper, and an
error says so.

`Makes slack n Q f` says that where at most `n` containers may still be opened the results of `f`
are as `Q` says; `slack` is the level that such empty containers may add, so it is at least one
once an error has been recorded.
-/

namespace Rettp

variable [Platform]

section
omit [Platform]

/-! ## Heights of lists -/

/-- The items of an array, one by one. -/
theorem heightOfItems_le {items : List ValueAst} {k : Nat} :
    heightOfItems items ≤ k ↔ ∀ item ∈ items, item.height ≤ k := by
  induction items with
  | nil => simp [heightOfItems]
  | cons item items ih => rw [heightOfItems, Nat.max_le, List.forall_mem_cons, ih]

/-- The entries of an object, one by one. -/
theorem heightOfEntries_le {entries : List ObjectValueEntryAst} {k : Nat} :
    heightOfEntries entries ≤ k ↔ ∀ entry ∈ entries, entry.value.height ≤ k := by
  induction entries with
  | nil => simp [heightOfEntries]
  | cons entry entries ih =>
    obtain ⟨key, value, span⟩ := entry
    rw [heightOfEntries, Nat.max_le, List.forall_mem_cons, ih]

/-- Fields, one by one. -/
theorem heightOfFields_le {fields : List FieldAssertionAst} {k : Nat} :
    heightOfFields fields ≤ k ↔ ∀ field ∈ fields, field.height ≤ k := by
  induction fields with
  | nil => simp [heightOfFields]
  | cons field fields ih => rw [heightOfFields, Nat.max_le, List.forall_mem_cons, ih]

/-- A field: its value and its nested fields. -/
theorem field_height_le {field : FieldAssertionAst} {k : Nat} (h : field.height ≤ k) :
    (∀ value, field.expectedValue = some value → value.height ≤ k) ∧
      ∀ nested, field.nested = some nested → nested.height ≤ k := by
  obtain ⟨name, expectedType, expectedValue, nested, capture, span⟩ := field
  rw [FieldAssertionAst.height, Nat.max_le] at h
  refine ⟨?_, ?_⟩
  · rintro value rfl
    exact h.1
  · rintro nested rfl
    exact h.2

end

/-! ## Results -/

/-- Where at most `n` containers may still be opened, the results are as `Q` says. -/
def Makes {α : Type} (slack n : Nat) (Q : α → Prop) (f : ParserM α) : Prop :=
  ∀ p, p.nestingLeft ≤ n → ((f.run p).2.errors ≠ [] → 1 ≤ slack) → Q (f.run p).1

section
omit [Platform]

variable {α β : Type} {slack n : Nat} {Q : α → Prop} {R : β → Prop}

/-- An error that is recorded stays. -/
theorem errors_run (f : ParserM α) {p : Parser} (h : p.errors ≠ []) : (f.run p).2.errors ≠ [] :=
  fun hnil => h (List.prefix_nil.mp (hnil ▸ (f.moves p).2.2))

namespace Makes

theorem pure {a : α} (h : Q a) : Makes slack n Q (Pure.pure a) := fun _ _ _ => h

theorem bind {f : ParserM α} {k : α → ParserM β} (hf : Makes slack n Q f) (hsteady : Steady f)
    (hk : ∀ a, Q a → Makes slack n R (k a)) : Makes slack n R (f >>= k) := by
  intro p hp herrors
  have ha := hf p hp fun h => herrors (errors_run (k (f.run p).1) h)
  exact hk _ ha _ (nestingLeft_run (hsteady p) ▸ hp) herrors

/-- After a program whose results are of no interest. -/
theorem skip {f : ParserM α} {k : α → ParserM β} (hsteady : Steady f)
    (hk : ∀ a, Makes slack n R (k a)) : Makes slack n R (f >>= k) :=
  bind (Q := fun _ => True) (fun _ _ _ => trivial) hsteady fun a _ => hk a

theorem ite {c : Prop} [Decidable c] {f g : ParserM α} (hf : Makes slack n Q f)
    (hg : Makes slack n Q g) : Makes slack n Q (if c then f else g) := by
  split
  · exact hf
  · exact hg

theorem loop {stop : TokenKind → Bool} {body : α → ParserM α}
    (hsteady : ∀ a p, Before stop p.next → ((body a).run p).2.nestingDepth = p.nestingDepth)
    (hbody : ∀ a, Q a → Makes slack n Q (body a)) {start : α} (h : Q start) :
    Makes slack n Q (untilNext stop body start) := by
  have hrounds : ∀ fuel a, Q a → Makes slack n Q (rounds stop body fuel a) := by
    intro fuel
    induction fuel with
    | zero => exact fun a ha => .pure ha
    | succ fuel ih =>
      intro a ha p hp herrors
      by_cases hbefore : Before stop p.next
      · rw [rounds_step hbefore, Recorder.run_bind] at herrors ⊢
        have hnext := hbody a ha p hp fun h => herrors (errors_run (rounds stop body fuel _) h)
        exact ih _ hnext _ (nestingLeft_run (hsteady a p hbefore) ▸ hp) herrors
      · rw [rounds_stop hbefore]
        exact ha
  intro p hp herrors
  rw [untilNext_run] at herrors ⊢
  exact hrounds _ _ h p hp herrors

/-- A container is one level higher than what is in it; a refused one is empty. -/
theorem opened {inner : ParserM β} {R : Nat → β → Prop} (hinner : ∀ m, m + 1 = n →
      Makes slack m (R m) inner) (t : Token) {result : β → SourceSpan → α}
    {refused : SourceSpan → α} (hresult : ∀ m b span, m + 1 = n → R m b → Q (result b span))
    (hrefused : ∀ span, 1 ≤ slack → Q (refused span)) :
    Makes slack n Q (opened t inner result refused) := by
  intro p hp herrors
  rw [opened_run] at herrors ⊢
  split
  · next hdepth =>
    rw [if_pos hdepth] at herrors
    refine hrefused _ (herrors (errors_run _ ?_))
    exact List.append_ne_nil_of_right_ne_nil _ (List.cons_ne_nil _ _)
  · next hdepth =>
    rw [if_neg hdepth] at herrors
    unfold Parser.nestingLeft at hp
    have hm : n - 1 + 1 = n := by omega
    refine hresult (n - 1) _ _ hm (hinner _ hm _ ?_ fun h => herrors (errors_run (do
      let span ← spanFrom t.span.start
      exitNesting
      Pure.pure (result _ span)) h))
    change p.maxNestingDepth - (p.nestingDepth + 1) ≤ n - 1
    omega

end Makes

end

section
variable {β : Type} {slack n : Nat} {R : β → Prop}

/-- After an error there is a level to spare. -/
theorem Makes.expected {description : String} {k : Unit → ParserM β}
    (hk : 1 ≤ slack → Makes slack n R (k ())) :
    Makes slack n R (Rettp.expected description >>= k) := by
  intro p hp herrors
  rw [Recorder.run_bind] at herrors ⊢
  have hleft : ((Rettp.expected description).run p).2.nestingLeft = p.nestingLeft := by
    rw [expected_run]
    rfl
  refine hk (herrors (errors_run _ ?_)) _ (hleft ▸ hp) herrors
  rw [expected_run]
  exact List.append_ne_nil_of_right_ne_nil _ (List.cons_ne_nil _ _)

end

/-! ## Values -/

section
variable {slack n : Nat} {parseValue : ParserM (Option ValueAst)}

/-- The results are at most so high. -/
def ValuesTo (k : Nat) (value : Option ValueAst) : Prop := ∀ v ∈ value, v.height ≤ k

/-- One more entry of an object is nested as deep as its value. -/
theorem objectValueEntry_makes {k : Nat} (h : Makes slack n (ValuesTo k) parseValue)
    (hvalue : Coupled parseValue) (entries : List ObjectValueEntryAst)
    (hentries : ∀ entry ∈ entries, entry.value.height ≤ k) :
    Makes slack n (fun entries => ∀ entry ∈ entries, entry.value.height ≤ k)
      (objectValueEntry parseValue entries) := by
  refine .skip (Coupled.steady objectKey_coupled) fun key => ?_
  cases key with
  | none =>
    exact .expected fun _ => .skip (Coupled.steady discardUnexpectedTerminal_coupled) fun _ =>
      .skip (Coupled.steady synchronizeObjectEntry_coupled) fun _ => .pure hentries
  | some key =>
    refine .skip (Coupled.steady (consume_coupled rfl rfl _)) fun _ =>
      .bind h (Coupled.steady hvalue) fun value hheight => ?_
    cases value with
    | none =>
      exact .expected fun _ => .skip (Coupled.steady synchronizeObjectEntry_coupled) fun _ =>
        .pure hentries
    | some value =>
      refine .skip (Coupled.steady skipOptionalComma_coupled) fun _ => .pure ?_
      exact List.forall_mem_append.mpr ⟨hentries, List.forall_mem_singleton.mpr (hheight value rfl)⟩

/-- An object is nested one level deeper than its values. -/
theorem parseObjectValueWith_makes
    (h : ∀ m, m + 1 = n → Makes slack m (ValuesTo (m + slack)) parseValue)
    (hvalue : Coupled parseValue) :
    Makes slack n (fun object => object.height ≤ n + slack) (parseObjectValueWith parseValue) := by
  refine .skip (Coupled.steady (take_coupled rfl rfl)) fun brace => ?_
  cases brace with
  | none =>
    refine .skip (fun _ => rfl) fun span => .expected fun hslack => .pure ?_
    exact Nat.le_trans hslack (Nat.le_add_left _ _)
  | some t =>
    refine .opened (R := fun m entries => ∀ entry ∈ entries, entry.value.height ≤ m + slack)
      (fun m hm => .bind (.loop (fun entries p _ => ?_) (fun entries =>
        objectValueEntry_makes (h m hm) hvalue entries) (List.forall_mem_nil _)) ?_ fun entries
        hentries => .skip (Coupled.steady (consume_coupled rfl rfl _)) fun _ => .pure hentries) t
      (fun m entries span hm hentries => ?_) fun span hslack => ?_
    · exact Coupled.steady (objectValueEntry_coupled hvalue entries) p
    · exact Coupled.steady (parseObjectValueEntries_coupled hvalue)
    · have hle := heightOfEntries_le.mpr hentries
      change heightOfEntries entries + 1 ≤ n + slack
      omega
    · change 0 + 1 ≤ n + slack
      omega

/-- One more item of an array is nested as deep as it is. -/
theorem arrayItem_makes {k : Nat} (h : Makes slack n (ValuesTo k) parseValue)
    (hvalue : Coupled parseValue) (items : List ValueAst) (hitems : ∀ item ∈ items, item.height ≤ k) :
    Makes slack n (fun items => ∀ item ∈ items, item.height ≤ k) (arrayItem parseValue items) := by
  refine .bind h (Coupled.steady hvalue) fun value hheight => ?_
  cases value with
  | none =>
    exact .expected fun _ => .skip (Coupled.steady discardUnexpectedTerminal_coupled) fun _ =>
      .skip (Coupled.steady synchronizeArrayItem_coupled) fun _ => .pure hitems
  | some value =>
    have hitems' : ∀ item ∈ items ++ [value], item.height ≤ k :=
      List.forall_mem_append.mpr ⟨hitems, List.forall_mem_singleton.mpr (hheight value rfl)⟩
    refine .skip (Coupled.steady (take_coupled rfl rfl)) fun comma => ?_
    cases comma with
    | some _ => exact .pure hitems'
    | none =>
      exact .skip (fun _ => rfl) fun _ => .ite (.pure hitems') <| .expected fun _ =>
        .skip (Coupled.steady synchronizeArrayItem_coupled) fun _ => .pure hitems'

/-- An array is nested one level deeper than its items. -/
theorem parseArrayValueWith_makes
    (h : ∀ m, m + 1 = n → Makes slack m (ValuesTo (m + slack)) parseValue)
    (hvalue : Coupled parseValue) :
    Makes slack n (fun array => heightOfItems array.items + 1 ≤ n + slack)
      (parseArrayValueWith parseValue) := by
  refine .skip (Coupled.steady (take_coupled rfl rfl)) fun bracket => ?_
  cases bracket with
  | none =>
    refine .skip (fun _ => rfl) fun span => .expected fun hslack => .pure ?_
    exact Nat.le_trans hslack (Nat.le_add_left _ _)
  | some t =>
    have hsteady : ∀ items, Steady (arrayItem parseValue items) := fun items =>
      Coupled.steady (arrayItem_coupled hvalue items)
    refine .opened (R := fun m items => ∀ item ∈ items, item.height ≤ m + slack)
      (fun m hm => .bind (.loop (fun items p _ => hsteady items p) (fun items =>
        arrayItem_makes (h m hm) hvalue items) (List.forall_mem_nil _)) ?_ fun items hitems =>
          .skip (Coupled.steady (consume_coupled rfl rfl _)) fun _ => .pure hitems) t
      (fun m items span hm hitems => ?_) fun span hslack => ?_
    · exact Coupled.steady (untilNext_coupled (fun items => arrayItem_coupled hvalue items) [])
    · have hle := heightOfItems_le.mpr hitems
      change heightOfItems items + 1 ≤ n + slack
      omega
    · change 0 + 1 ≤ n + slack
      omega

/-- A literal is nested as deep as its containers. -/
theorem parseValueWith_makes
    (h : ∀ m, m + 1 = n → Makes slack m (ValuesTo (m + slack)) parseValue)
    (hvalue : Coupled parseValue) :
    Makes slack n (ValuesTo (n + slack)) (parseValueWith parseValue) := by
  have hscalar : ∀ {v : ValueAst}, v.height = 0 →
      Makes slack n (ValuesTo (n + slack)) (do bump; pure (some v)) := fun hv =>
    .skip bump_steady fun _ => .pure fun _ heq => by
      cases heq
      rw [hv]
      exact Nat.zero_le _
  refine .skip (fun _ => rfl) fun span => .skip (fun _ => rfl) fun kind => ?_
  split
  case h_7 =>
    refine .bind (parseArrayValueWith_makes h hvalue)
      (Coupled.steady (parseArrayValueWith_coupled hvalue)) fun array harray => .pure ?_
    obtain ⟨items, span⟩ := array
    rintro _ ⟨⟩
    exact harray
  case h_8 =>
    refine .bind (parseObjectValueWith_makes h hvalue)
      (Coupled.steady (parseObjectValueWith_coupled hvalue)) fun object hobject => .pure ?_
    rintro _ ⟨⟩
    exact hobject
  case h_9 => exact .pure (fun _ heq => (nomatch heq))
  all_goals exact hscalar rfl

end

variable {slack n : Nat}

/-- **Values** are at most as high as there were containers left to open. -/
theorem parseValue_makes (n : Nat) : Makes slack n (ValuesTo (n + slack)) parseValue := by
  induction n with
  | zero =>
    intro p hp herrors
    rw [parseValue_fixed] at herrors ⊢
    exact parseValueWith_makes (fun m hm => by omega) parseValue_coupled p hp herrors
  | succ n ih =>
    intro p hp herrors
    rw [parseValue_fixed] at herrors ⊢
    refine parseValueWith_makes (fun m hm => ?_) parseValue_coupled p hp herrors
    cases hm
    exact ih

/-- Objects are nested within the limit. -/
theorem parseObjectValue_makes :
    Makes slack n (fun object => object.height ≤ n + slack) parseObjectValue :=
  parseObjectValueWith_makes (fun m _ => parseValue_makes m) parseValue_coupled

/-! ## Requests -/

/-- One more request header is nested within the limit. -/
theorem requestHeader_makes (entries : List HeaderValueEntryAst)
    (hentries : ∀ entry ∈ entries, entry.value.height ≤ n + slack) :
    Makes slack n (fun entries => ∀ entry ∈ entries, entry.value.height ≤ n + slack)
      (requestHeader entries) := by
  refine .skip (Coupled.steady (stringLiteral_coupled _)) fun name =>
    .skip (Coupled.steady (consume_coupled rfl rfl _)) fun _ =>
    .bind (parseValue_makes n) (Coupled.steady parseValue_coupled) fun value hheight => ?_
  cases value with
  | none =>
    exact .expected fun _ => .skip (Coupled.steady synchronizeRequestEntry_coupled) fun _ =>
      .pure hentries
  | some value =>
    refine .skip (Coupled.steady skipOptionalComma_coupled) fun _ => .pure ?_
    exact List.forall_mem_append.mpr ⟨hentries, List.forall_mem_singleton.mpr (hheight value rfl)⟩

/-- The values of a section are at most so high. -/
def RequestSectionAst.HeightTo (k : Nat) (section_ : RequestSectionAst) : Prop :=
  ∀ value ∈ section_.values, value.height ≤ k

/-- The headers of a request are nested within the limit. -/
theorem requestHeaders_makes :
    Makes slack n (fun headers => (RequestSectionAst.headers headers).HeightTo (n + slack))
      parseRequestHeaders := by
  refine .skip (Coupled.steady (consumeStart_coupled rfl rfl _)) fun start =>
    .skip (Coupled.steady (consume_coupled rfl rfl _)) fun _ =>
    .bind (Q := fun entries => ∀ entry ∈ entries, entry.value.height ≤ n + slack)
      (.bind (.loop (fun entries p _ => Coupled.steady (requestHeader_coupled entries) p)
        requestHeader_makes (List.forall_mem_nil _)) ?_ fun entries hentries =>
          .skip (Coupled.steady (consume_coupled rfl rfl _)) fun _ => .pure hentries) ?_
      fun entries hentries => .skip (fun _ => rfl) fun span => .pure ?_
  · exact Coupled.steady (untilNext_coupled (fun entries => requestHeader_coupled entries) [])
  · exact Coupled.steady (closed_coupled rfl rfl _
      (untilNext_coupled (fun entries => requestHeader_coupled entries) []))
  · exact List.forall_mem_map.mpr hentries

/-- The query of a request is nested within the limit. -/
theorem parseRequestQuery_makes :
    Makes slack n (fun query => (RequestSectionAst.query query).HeightTo (n + slack))
      parseRequestQuery := by
  refine .skip (Coupled.steady (consumeStart_coupled rfl rfl _)) fun start =>
    .bind parseObjectValue_makes (Coupled.steady parseObjectValue_coupled) fun object hobject =>
      .pure (List.forall_mem_map.mpr fun entry hentry => ?_)
  obtain ⟨entries, span⟩ := object
  have hle : heightOfEntries entries ≤ n + slack := Nat.le_of_succ_le hobject
  exact heightOfEntries_le.mp hle entry hentry

/-- The body of a request is nested within the limit. -/
theorem parseRequestBody_makes :
    Makes slack n (fun body => (RequestSectionAst.body body).HeightTo (n + slack))
      parseRequestBody :=
  .skip (Coupled.steady (consumeStart_coupled rfl rfl _)) fun _ =>
    .bind parseObjectValue_makes (Coupled.steady parseObjectValue_coupled) fun _ hobject =>
      .pure (List.forall_mem_singleton.mpr hobject)

/-- One more section of a request is nested within the limit. -/
theorem requestSection_makes (sections : List RequestSectionAst)
    (hsections : ∀ section_ ∈ sections, section_.HeightTo (n + slack)) :
    Makes slack n (fun sections => ∀ section_ ∈ sections, section_.HeightTo (n + slack))
      (requestSection sections) := by
  have hmore : ∀ section_ : RequestSectionAst, section_.HeightTo (n + slack) →
      ∀ s ∈ sections ++ [section_], s.HeightTo (n + slack) := fun section_ h =>
    List.forall_mem_append.mpr ⟨hsections, List.forall_mem_singleton.mpr h⟩
  refine .skip (fun _ => rfl) fun kind => ?_
  split
  · exact .bind requestHeaders_makes (Coupled.steady parseRequestHeaders_coupled) fun _ h =>
      .pure (hmore _ h)
  · exact .bind parseRequestQuery_makes (Coupled.steady parseRequestQuery_coupled) fun _ h =>
      .pure (hmore _ h)
  · exact .bind parseRequestBody_makes (Coupled.steady parseRequestBody_coupled) fun _ h =>
      .pure (hmore _ h)
  · exact .expected fun _ => .skip bump_steady fun _ =>
      .skip (Coupled.steady (show Coupled synchronizeRequestSection from skipTo_coupled rfl rfl))
        fun _ => .pure hsections

/-- The values of a request are at most so high. -/
def RequestAst.HeightTo (k : Nat) (request : RequestAst) : Prop :=
  ∀ value ∈ request.values, value.height ≤ k

/-- **A request** is nested within the limit. -/
theorem parseRequest_makes :
    Makes slack n (RequestAst.HeightTo (n + slack)) parseRequest := by
  have hloop : Coupled (untilNext (fun kind => isRightBrace kind || kind.isTestBoundary)
      requestSection []) := untilNext_coupled requestSection_coupled []
  refine .skip (Coupled.steady (consumeStart_coupled rfl rfl _)) fun start =>
    .skip (Coupled.steady parseHttpMethod_coupled) fun method =>
    .skip (Coupled.steady (stringLiteral_coupled _)) fun path =>
    .skip (Coupled.steady (take_coupled rfl rfl)) fun brace => ?_
  cases brace with
  | none => exact .skip (fun _ => rfl) fun span => .pure (List.forall_mem_nil _)
  | some t =>
    refine .bind (Q := fun sections => ∀ section_ ∈ sections,
      RequestSectionAst.HeightTo (n + slack) section_) (.bind (.loop (fun sections p hbefore =>
        ((requestSection_coupled sections).moved p hbefore).1) requestSection_makes
          (List.forall_mem_nil _)) hloop.steady fun sections hsections =>
            .skip (Coupled.steady (consume_coupled rfl rfl _)) fun _ => .pure hsections)
      (Coupled.steady (closed_coupled rfl rfl _ hloop)) fun sections hsections =>
        .skip (fun _ => rfl) fun span => .pure fun value hvalue => ?_
    obtain ⟨section_, hsection, hmem⟩ := List.mem_flatMap.mp hvalue
    exact hsections section_ hsection value hmem

/-! ## Expectations -/

section
variable {parseNested : ParserM ObjectAssertionAst} {k : Nat}

/-- The comparison value and the nested assertion of a field are at most so high. -/
def OperandTo (k : Nat) (operand : Option ValueAst × Option ObjectAssertionAst) : Prop :=
  ValuesTo k operand.1 ∧ ∀ nested ∈ operand.2, nested.height ≤ k

omit [Platform] in
/-- A field is nested as deep as its value and its nested fields. -/
theorem OperandTo.field {operand : Option ValueAst × Option ObjectAssertionAst}
    (h : OperandTo k operand) (name : Spanned String)
    (expectedType : Option (Spanned AssertionTypeAst)) (capture : Option (Spanned String))
    (span : SourceSpan) :
    FieldAssertionAst.height ⟨name, expectedType, operand.1, operand.2, capture, span⟩ ≤ k := by
  obtain ⟨value, nested⟩ := operand
  rw [FieldAssertionAst.height]
  refine Nat.max_le.mpr ⟨?_, ?_⟩
  · cases value with
    | none => exact Nat.zero_le _
    | some value => exact h.1 value rfl
  · cases nested with
    | none => exact Nat.zero_le _
    | some nested => exact h.2 nested rfl

/-- What follows the type of a field is nested within the limit. -/
theorem parseFieldOperand_makes
    (h : Makes slack n (fun nested => nested.height ≤ n + slack) parseNested)
    (hnested : FollowsSome parseNested) (expectedType : Option (Spanned AssertionTypeAst)) :
    Makes slack n (OperandTo (n + slack)) (parseFieldOperand parseNested expectedType) := by
  have hnone : OperandTo (n + slack) (none, none) :=
    ⟨fun _ heq => (nomatch heq), fun _ heq => (nomatch heq)⟩
  refine .skip (Coupled.steady (take_coupled rfl rfl)) fun equal => .ite
    (.bind (parseValue_makes n) (Coupled.steady parseValue_coupled) fun value hheight => ?_)
    (.skip (fun _ => rfl) fun brace => .ite ?_ (.pure hnone))
  · cases value with
    | none => exact .expected fun _ => .pure hnone
    | some value => exact .pure ⟨hheight, fun _ heq => (nomatch heq)⟩
  · obtain ⟨lacks, hlacks⟩ := hnested
    refine .bind h hlacks.steady fun nested hheight => .pure ⟨fun _ heq => (nomatch heq), ?_⟩
    rintro _ ⟨⟩
    exact hheight

/-- A field behind its type is nested within the limit. -/
theorem parseFieldRest_makes
    (h : Makes slack n (fun nested => nested.height ≤ n + slack) parseNested)
    (hnested : FollowsSome parseNested) (name : Spanned String)
    (expectedType : Option (Spanned AssertionTypeAst)) :
    Makes slack n (fun field => field.height ≤ n + slack)
      (parseFieldRest parseNested name expectedType) := by
  refine .bind (parseFieldOperand_makes h hnested expectedType) ?_ fun operand hoperand =>
    .skip (Coupled.steady (parseCapture_coupled _)) fun capture =>
    .skip (Coupled.steady (pushErrorIf_coupled _ _)) fun _ => .skip (fun _ => rfl) fun span =>
    .pure (hoperand.field name expectedType capture span)
  obtain ⟨lacks, hlacks⟩ := hnested
  exact FollowsAny.steady (parseFieldOperand_follows hlacks expectedType)

/-- A field is nested within the limit. -/
theorem parseFieldAssertion_makes
    (h : Makes slack n (fun nested => nested.height ≤ n + slack) parseNested)
    (hnested : FollowsSome parseNested) :
    Makes slack n (fun field => ∀ f ∈ field, f.height ≤ n + slack)
      (parseFieldAssertion parseNested) := by
  obtain ⟨lacks, hlacks⟩ := hnested
  refine .skip (Coupled.steady objectKey_coupled) fun key => ?_
  cases key with
  | none =>
    exact .expected fun _ => .skip (Coupled.steady discardUnexpectedTerminal_coupled) fun _ =>
      .pure fun _ heq => (nomatch heq)
  | some name =>
    refine .skip (Coupled.steady (take_coupled rfl rfl)) fun colon => .ite
      (.bind (Q := fun field => field.height ≤ n + slack) ?_
        (FollowsAny.steady (parseTypedField_follows hlacks name)) fun field hfield => .pure ?_)
      (.bind (parseFieldRest_makes h ⟨lacks, hlacks⟩ name none)
        (FollowsAny.steady (parseFieldRest_follows hlacks name none)) fun field hfield => .pure ?_)
    · exact .skip (fun p => (parseAssertionType_moved p).1) fun expectedType =>
        parseFieldRest_makes h ⟨lacks, hlacks⟩ name expectedType
    · rintro _ ⟨⟩
      exact hfield
    · rintro _ ⟨⟩
      exact hfield

/-- One more field is nested within the limit. -/
theorem fieldAssertion_makes
    (h : Makes slack n (fun nested => nested.height ≤ n + slack) parseNested)
    (hnested : FollowsSome parseNested) (fields : List FieldAssertionAst)
    (hfields : ∀ field ∈ fields, field.height ≤ n + slack) :
    Makes slack n (fun fields => ∀ field ∈ fields, field.height ≤ n + slack)
      (fieldAssertion parseNested fields) := by
  refine .bind (parseFieldAssertion_makes h hnested) ?_ fun field hfield => ?_
  · obtain ⟨lacks, hlacks⟩ := hnested
    exact FollowsAny.steady (parseFieldAssertion_follows hlacks)
  · cases field with
    | none =>
      exact .skip (Coupled.steady synchronizeExpectationEntry_coupled) fun _ => .pure hfields
    | some field =>
      refine .skip (Coupled.steady skipOptionalComma_coupled) fun _ => .pure ?_
      exact List.forall_mem_append.mpr ⟨hfields, List.forall_mem_singleton.mpr (hfield field rfl)⟩

/-- An object assertion is nested one level deeper than its fields. -/
theorem parseObjectAssertionWith_makes (mode : ObjectMatchModeAst)
    (h : ∀ m, m + 1 = n → Makes slack m (fun nested => nested.height ≤ m + slack) parseNested)
    (hnested : FollowsSome parseNested) :
    Makes slack n (fun assertion => assertion.height ≤ n + slack)
      (parseObjectAssertionWith parseNested mode) := by
  obtain ⟨lacks, hlacks⟩ := hnested
  refine .skip (Coupled.steady (take_coupled rfl rfl)) fun brace => ?_
  cases brace with
  | none =>
    refine .skip (fun _ => rfl) fun span => .expected fun hslack => .pure ?_
    exact Nat.le_trans hslack (Nat.le_add_left _ _)
  | some t =>
    have hsteady : ∀ fields, Steady (fieldAssertion parseNested fields) := fun fields =>
      FollowsAny.steady (fieldAssertion_follows hlacks fields)
    refine .opened (R := fun m fields => ∀ field ∈ fields, field.height ≤ m + slack)
      (fun m hm => .bind (.loop (fun fields p _ => hsteady fields p) (fun fields =>
        fieldAssertion_makes (h m hm) ⟨lacks, hlacks⟩ fields) (List.forall_mem_nil _)) ?_
          fun fields hfields => .skip (Coupled.steady (consume_coupled rfl rfl _)) fun _ =>
            .pure hfields) t (fun m fields span hm hfields => ?_) fun span hslack => ?_
    · exact FollowsAny.steady (.loop (fun fields => fieldAssertion_follows hlacks fields) [])
    · have hle := heightOfFields_le.mpr hfields
      change heightOfFields fields + 1 ≤ n + slack
      omega
    · change 0 + 1 ≤ n + slack
      omega

end

/-- **Object assertions** are at most as high as there were containers left to open. -/
theorem parseObjectAssertion_makes (n : Nat) :
    ∀ mode, Makes slack n (fun assertion => assertion.height ≤ n + slack)
      (parseObjectAssertion mode) := by
  have hnested : FollowsSome (parseObjectAssertion .partially) :=
    ⟨_, parseObjectAssertion_follows .partially⟩
  induction n with
  | zero =>
    intro mode p hp herrors
    rw [parseObjectAssertion_fixed] at herrors ⊢
    exact parseObjectAssertionWith_makes mode (fun m hm => by omega) hnested p hp herrors
  | succ n ih =>
    intro mode p hp herrors
    rw [parseObjectAssertion_fixed] at herrors ⊢
    refine parseObjectAssertionWith_makes mode (fun m hm => ?_) hnested p hp herrors
    cases hm
    exact ih .partially

/-- The object assertion of a body, if any, is at most so high. -/
def ExpectationSectionAst.HeightTo (k : Nat) (section_ : ExpectationSectionAst) : Prop :=
  ∀ assertion ∈ section_.assertions, assertion.height ≤ k

/-- A body assertion is nested within the limit. -/
theorem parseBodyAssertion_makes :
    Makes slack n (fun body => (ExpectationSectionAst.body body).HeightTo (n + slack))
      parseBodyAssertion := by
  have hcomma : Steady skipOptionalComma := Coupled.steady skipOptionalComma_coupled
  refine .skip (Coupled.steady (consumeStart_coupled rfl rfl _)) fun start =>
    .skip (Coupled.steady (takeContextualIdentifier_coupled _)) fun _ => .ite ?_ <|
    .skip (Coupled.steady (take_coupled rfl rfl)) fun _ => .ite ?_ <|
    .skip (Coupled.steady (takeContextualIdentifier_coupled _)) fun _ => .ite ?_ <|
    .skip (Coupled.steady (take_coupled rfl rfl)) fun exact_ => .bind
      (parseObjectAssertion_makes n _) (FollowsAny.steady (parseObjectAssertion_follows _))
        fun assertion hassertion => .pure (List.forall_mem_singleton.mpr ?_)
  · exact .skip hcomma fun _ => .skip (fun _ => rfl) fun _ => .pure (List.forall_mem_nil _)
  · exact .skip (Coupled.steady (stringLiteral_coupled _)) fun _ => .skip hcomma fun _ =>
      .skip (fun _ => rfl) fun _ => .pure (List.forall_mem_nil _)
  · exact .skip (Coupled.steady (stringLiteral_coupled _)) fun _ => .skip hcomma fun _ =>
      .skip (fun _ => rfl) fun _ => .pure (List.forall_mem_nil _)
  · obtain ⟨mode, fields, span⟩ := assertion
    exact hassertion

/-- One more section of an expectation is nested within the limit. -/
theorem expectationSection_makes (sections : List ExpectationSectionAst)
    (hsections : ∀ section_ ∈ sections, section_.HeightTo (n + slack)) :
    Makes slack n (fun sections => ∀ section_ ∈ sections, section_.HeightTo (n + slack))
      (expectationSection sections) := by
  have hmore : ∀ section_ : ExpectationSectionAst, section_.HeightTo (n + slack) →
      ∀ s ∈ sections ++ [section_], s.HeightTo (n + slack) := fun section_ h =>
    List.forall_mem_append.mpr ⟨hsections, List.forall_mem_singleton.mpr h⟩
  refine .skip (fun _ => rfl) fun kind => ?_
  split
  · exact .skip (Coupled.steady parseStatusAssertion_coupled) fun _ =>
      .pure (hmore _ (List.forall_mem_nil _))
  · exact .skip (Coupled.steady parseResponseHeaders_coupled) fun _ =>
      .pure (hmore _ (List.forall_mem_nil _))
  · exact .bind parseBodyAssertion_makes (FollowsAny.steady parseBodyAssertion_follows) fun _ h =>
      .pure (hmore _ h)
  · exact .expected fun _ => .skip bump_steady fun _ => .skip (Coupled.steady
      (show Coupled synchronizeExpectationSection from skipTo_coupled rfl rfl)) fun _ =>
        .pure hsections

/-- The object assertions of an expectation are at most so high. -/
def ExpectationAst.HeightTo (k : Nat) (expectation : ExpectationAst) : Prop :=
  ∀ assertion ∈ expectation.assertions, assertion.height ≤ k

/-- **An expectation** is nested within the limit. -/
theorem parseExpectation_makes :
    Makes slack n (ExpectationAst.HeightTo (n + slack)) parseExpectation := by
  have hloop := Follows.loop (H := fun _ => True) expectationSection_follows []
  refine .skip (Coupled.steady (consumeStart_coupled rfl rfl _)) fun start =>
    .skip (Coupled.steady (consume_coupled rfl rfl _)) fun _ =>
    .bind (Q := fun sections => ∀ section_ ∈ sections,
      ExpectationSectionAst.HeightTo (n + slack) section_) (.bind (.loop (fun sections p hbefore =>
        ((expectationSection_follows sections).moved p hbefore).1) expectationSection_makes
          (List.forall_mem_nil _)) (FollowsAny.steady hloop) fun sections hsections =>
            .skip (Coupled.steady (consume_coupled rfl rfl _)) fun _ => .pure hsections)
      (FollowsAny.steady (.closed rfl rfl _ hloop)) fun sections hsections =>
        .skip (fun _ => rfl) fun span => .pure fun assertion hassertion => ?_
  obtain ⟨section_, hsection, hmem⟩ := List.mem_flatMap.mp hassertion
  exact hsections section_ hsection assertion hmem

/-! ## Tests and blocks -/

/-- The values and the object assertions of a test are at most so high. -/
structure TestAst.HeightTo (k : Nat) (test : TestAst) : Prop where
  requests : ∀ request ∈ test.requests, request.HeightTo k
  expectations : ∀ expectation ∈ test.expectations, expectation.HeightTo k

/-- Nothing in these items is nested deeper. -/
structure TestItems.HeightTo (k : Nat) (items : TestItems) : Prop where
  requests : ∀ request ∈ items.requests, request.HeightTo k
  expectations : ∀ expectation ∈ items.expectations, expectation.HeightTo k

/-- One more item of a test is nested within the limit. -/
theorem testItem_makes (items : TestItems) (hitems : items.HeightTo (n + slack)) :
    Makes slack n (TestItems.HeightTo (n + slack)) (testItem items) := by
  refine .skip (fun _ => rfl) fun kind => ?_
  split
  · refine .skip (Coupled.steady (pushErrorIf_coupled _ _)) fun _ =>
      .bind parseRequest_makes (Coupled.steady parseRequest_coupled) fun request h =>
        .pure ⟨?_, hitems.expectations⟩
    exact List.forall_mem_append.mpr ⟨hitems.requests, List.forall_mem_singleton.mpr h⟩
  · refine .bind parseExpectation_makes (FollowsAny.steady parseExpectation_follows)
      fun expectation h => .pure ⟨hitems.requests, ?_⟩
    exact List.forall_mem_append.mpr ⟨hitems.expectations, List.forall_mem_singleton.mpr h⟩
  · exact .expected fun _ => .skip bump_steady fun _ => .skip (Coupled.steady
      (show Coupled synchronizeTestItem from skipTo_coupled rfl rfl)) fun _ => .pure hitems

/-- **A test** is nested within the limit. -/
theorem parseTest_makes : Makes slack n (TestAst.HeightTo (n + slack)) parseTest := by
  refine .skip (Coupled.steady (consumeStart_coupled rfl rfl _)) fun start =>
    .skip (Coupled.steady (stringLiteral_coupled _)) fun name =>
    .skip (Coupled.steady (consume_coupled rfl rfl _)) fun _ =>
    .bind (.loop (fun items p hbefore => ((testItem_follows items).moved p hbefore).1)
      testItem_makes ⟨List.forall_mem_nil _, List.forall_mem_nil _⟩) ?_ fun items hitems =>
    .skip (Coupled.steady (pushErrorIf_coupled _ _)) fun _ =>
    .skip (Coupled.steady (pushErrorIf_coupled _ _)) fun _ =>
    .skip (Coupled.steady (consume_coupled rfl rfl _)) fun _ => .skip (fun _ => rfl) fun span =>
    .pure ⟨hitems.requests, hitems.expectations⟩
  exact FollowsAny.steady (.loop testItem_follows _)

/-- One more test of a block is nested within the limit. -/
theorem containedTest_makes (description : String) (tests : List TestAst)
    (htests : ∀ test ∈ tests, test.HeightTo (n + slack)) :
    Makes slack n (fun tests => ∀ test ∈ tests, test.HeightTo (n + slack))
      (containedTest description tests) := by
  refine .skip (fun _ => rfl) fun isTest => .ite ?_ ?_
  · refine .bind parseTest_makes parseTest_steady fun test h => .pure ?_
    exact List.forall_mem_append.mpr ⟨htests, List.forall_mem_singleton.mpr h⟩
  · exact .expected fun _ => .skip bump_steady fun _ => .skip (Coupled.steady
      (show Coupled synchronizeTestContainer from skipTo_coupled rfl rfl)) fun _ => .pure htests

/-- The tests of a block are at most so high. -/
def BlockAst.HeightTo (k : Nat) (block : BlockAst) : Prop :=
  ∀ test ∈ block.tests, test.HeightTo k

/-- A core is nested within the limit. -/
theorem parseCoreBlock_makes :
    Makes slack n (fun block => (BlockAst.core block).HeightTo (n + slack)) parseCoreBlock := by
  have hloop := fun description =>
    Follows.loop (H := fun _ => True) (containedTest_follows description) []
  refine .skip (consumeStart_steady _ _) fun start =>
    .skip (Coupled.steady (consume_coupled rfl rfl _)) fun _ =>
    .bind (Q := fun tests => ∀ test ∈ tests, TestAst.HeightTo (n + slack) test)
      (.bind (.loop (fun tests p hbefore => ((containedTest_follows _ tests).moved p hbefore).1)
        (containedTest_makes _) (List.forall_mem_nil _)) (FollowsAny.steady (hloop _))
          fun tests htests => .skip (Coupled.steady (consume_coupled rfl rfl _)) fun _ =>
            .pure htests)
      (FollowsAny.steady (.closed rfl rfl _ (hloop _))) fun tests htests =>
        .skip (fun _ => rfl) fun span => .pure htests

/-- A pipeline is nested within the limit. -/
theorem parsePipelineBlock_makes :
    Makes slack n (fun block => (BlockAst.pipeline block).HeightTo (n + slack))
      parsePipelineBlock := by
  refine .skip (consumeStart_steady _ _) fun start =>
    .skip (Coupled.steady (stringLiteral_coupled _)) fun name =>
    .skip (Coupled.steady (consume_coupled rfl rfl _)) fun _ =>
    .bind (.loop (fun tests p hbefore => ((containedTest_follows _ tests).moved p hbefore).1)
      (containedTest_makes _) (List.forall_mem_nil _)) ?_ fun tests htests =>
    .skip (Coupled.steady (pushErrorIf_coupled _ _)) fun _ =>
    .skip (Coupled.steady (consume_coupled rfl rfl _)) fun _ => .skip (fun _ => rfl) fun span =>
    .pure htests
  exact FollowsAny.steady (.loop (containedTest_follows _) [])

/-- One more block of a suite is nested within the limit. -/
theorem suiteItem_makes (items : SuiteItems)
    (hitems : ∀ block ∈ items.blocks, block.HeightTo (n + slack)) :
    Makes slack n (fun items => ∀ block ∈ items.blocks, block.HeightTo (n + slack))
      (suiteItem items) := by
  have hmore : ∀ block : BlockAst, block.HeightTo (n + slack) →
      ∀ b ∈ items.blocks ++ [block], b.HeightTo (n + slack) := fun block h =>
    List.forall_mem_append.mpr ⟨hitems, List.forall_mem_singleton.mpr h⟩
  refine .skip (fun _ => rfl) fun kind => ?_
  split
  · exact .skip (Coupled.steady (pushErrorIf_coupled _ _)) fun _ =>
      .bind parseCoreBlock_makes parseCoreBlock_steady fun _ h => .pure (hmore _ h)
  · exact .bind parsePipelineBlock_makes parsePipelineBlock_steady fun _ h => .pure (hmore _ h)
  · exact .bind parseTest_makes parseTest_steady fun test h =>
      .pure (hmore _ (List.forall_mem_singleton.mpr h))
  · exact .expected fun _ => .skip bump_steady fun _ => .skip (Coupled.steady
      (show Coupled synchronizeSuite from skipTo_coupled rfl rfl)) fun _ =>
        .pure hitems

/-- **Trees** are at most as high as the limit; an error adds at most one level, of empty
containers. -/
theorem parseSuite_makes :
    Makes slack n (fun ast => ∀ block ∈ ast.blocks, block.HeightTo (n + slack)) parseSuite := by
  refine .skip (fun _ => rfl) fun first => .bind (.loop (fun items p _ => suiteItem_steady items p)
    suiteItem_makes (List.forall_mem_nil _)) (untilNext_steady suiteItem_steady _) fun items hitems =>
      .skip (checkBlocks_steady _ _) fun _ => .pure hitems

end Rettp
