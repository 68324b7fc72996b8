import Rettp.Check
import Rettp.LexerTiling

/-!
# The numbers of a source are finite

A number in a tree is the number of a token, and the lexer only reads finite ones
(`SourceText.ast_finite`). So no number that is written in a source can make a resolution fail.
-/

namespace Rettp

/-! ## Trees with finite numbers -/

mutual

/-- No number of the literal is infinite or undefined. -/
def Tree.Value.Finite : Tree.Value → Prop
  | .number x => x.isFinite = true
  | .array items => Tree.Value.FiniteItems items
  | .object entries => Tree.Value.FiniteEntries entries
  | .string _ | .integer _ | .boolean _ | .null => True

/-- All items are finite. -/
def Tree.Value.FiniteItems : List Tree.Value → Prop
  | [] => True
  | item :: items => item.Finite ∧ Tree.Value.FiniteItems items

/-- The values of all entries are finite. -/
def Tree.Value.FiniteEntries : List (String × Tree.Value) → Prop
  | [] => True
  | (_, v) :: entries => v.Finite ∧ Tree.Value.FiniteEntries entries

end

/-- All values of a section are finite. -/
def Tree.RequestSection.Finite : Tree.RequestSection → Prop
  | .headers entries | .query entries | .body entries => Tree.Value.FiniteEntries entries

mutual

/-- All values of an object assertion are finite. -/
def Tree.ObjectAssertion.Finite : Tree.ObjectAssertion → Prop
  | ⟨_, fields⟩ => Tree.FieldAssertion.FiniteAll fields

/-- All fields are finite. -/
def Tree.FieldAssertion.FiniteAll : List Tree.FieldAssertion → Prop
  | [] => True
  | field :: fields => field.Finite ∧ Tree.FieldAssertion.FiniteAll fields

/-- The value and the nested fields of a field are finite. -/
def Tree.FieldAssertion.Finite : Tree.FieldAssertion → Prop
  | ⟨_, _, expectedValue, nested, _⟩ => (∀ v ∈ expectedValue, v.Finite) ∧
      match nested with
      | some assertion => assertion.Finite
      | none => True

end

/-- All values of a section of an expectation are finite. -/
def Tree.ExpectationSection.Finite : Tree.ExpectationSection → Prop
  | .body (.object assertion) => assertion.Finite
  | _ => True

/-- All values of a test are finite. -/
structure Tree.Test.Finite (test : Tree.Test) : Prop where
  requests : ∀ request ∈ test.requests, ∀ section_ ∈ request.sections, section_.Finite
  expectations : ∀ expectation ∈ test.expectations, ∀ section_ ∈ expectation, section_.Finite

/-- All tests of a block are finite. -/
def Tree.Block.Finite : Tree.Block → Prop
  | .core tests | .pipeline _ tests => ∀ test ∈ tests, test.Finite
  | .test t => t.Finite

theorem finiteItems_iff {items : List Tree.Value} :
    Tree.Value.FiniteItems items ↔ ∀ item ∈ items, item.Finite := by
  induction items with
  | nil => simp [Tree.Value.FiniteItems]
  | cons item items ih => rw [Tree.Value.FiniteItems, List.forall_mem_cons, ih]

theorem finiteEntries_iff {entries : List (String × Tree.Value)} :
    Tree.Value.FiniteEntries entries ↔ ∀ entry ∈ entries, entry.2.Finite := by
  induction entries with
  | nil => simp [Tree.Value.FiniteEntries]
  | cons entry entries ih => rw [Tree.Value.FiniteEntries, List.forall_mem_cons, ih]

theorem finiteFields_iff {fields : List Tree.FieldAssertion} :
    Tree.FieldAssertion.FiniteAll fields ↔ ∀ field ∈ fields, field.Finite := by
  induction fields with
  | nil => simp [Tree.FieldAssertion.FiniteAll]
  | cons field fields ih => rw [Tree.FieldAssertion.FiniteAll, List.forall_mem_cons, ih]

/-! ## The grammar -/

namespace Grammar

open Phrase

/-- Over tokens that the lexer makes. -/
abbrev Makes {α : Type} (Q : α → Prop) (p : Rule α) : Prop := Yields TokenKind.Scannable Q p

theorem scalar_finite : Makes Tree.Value.Finite scalar := by
  have hnumber : Makes (fun x : Float => x.isFinite = true) number := by
    refine .token fun kind x hkind hscannable => ?_
    rw [numberOf_eq_some.mp hkind] at hscannable
    exact hscannable
  refine .orElse (.next fun value => .pure ?_) <| .orElse (.next fun value => .pure ?_) <|
    .orElse (hnumber.bind fun x hx => .pure ?_) <| .orElse (.next fun _ => .pure ?_) <|
    .orElse (.next fun _ => .pure ?_) (.next fun _ => .pure ?_)
  · exact trivial
  · exact trivial
  · exact hx
  · exact trivial
  · exact trivial
  · exact trivial

theorem between_finite {α : Type} {Q : α → Prop} {open_ close : TokenKind} {p : Rule α}
    (h : Makes Q p) : Makes Q (between open_ close p) :=
  .next fun _ => h.bind fun _ ha => .next fun _ => .pure ha

theorem entries_finite {entry : Rule (String × Tree.Value)}
    (h : Makes (fun entry => entry.2.Finite) entry) :
    Makes Tree.Value.FiniteEntries (braces (many entry)) :=
  between_finite (h.many.mono fun _ => finiteEntries_iff.mpr)

theorem objectValueEntry_finite {value : Rule Tree.Value} (h : Makes Tree.Value.Finite value) :
    Makes (fun entry => entry.2.Finite) (objectValueEntry value) :=
  .next fun _ => .next fun _ => h.bind fun _ hv => .next fun _ => .pure hv

theorem arrayValue_finite {value : Rule Tree.Value} (h : Makes Tree.Value.Finite value) :
    Makes Tree.Value.FiniteItems (arrayValue value) := by
  refine between_finite (.orElse (h.bind fun item hitem => ?_) (.pure trivial))
  have hrest : Makes (fun items => ∀ v ∈ items, v.Finite)
      (many (do terminal .comma; value)) := .many (.next fun _ => h)
  exact hrest.bind fun items hitems => .next fun _ => .pure ⟨hitem, finiteItems_iff.mpr hitems⟩

/-- Values, by how many containers they may open. -/
theorem value_finite (nesting : Nat) : Makes Tree.Value.Finite (value nesting) := by
  induction nesting with
  | zero => exact scalar_finite
  | succ nesting ih =>
    refine scalar_finite.orElse (.orElse ?_ ?_)
    · exact (arrayValue_finite ih).bind fun items hitems => .pure hitems
    · exact (entries_finite (objectValueEntry_finite ih)).bind fun entries hentries => .pure hentries

theorem objectValue_finite (nesting : Nat) : Makes Tree.Value.FiniteEntries (objectValue nesting) := by
  cases nesting with
  | zero => exact .never
  | succ nesting => exact entries_finite (objectValueEntry_finite (value_finite nesting))

theorem requestSection_finite (nesting : Nat) :
    Makes Tree.RequestSection.Finite (requestSection nesting) := by
  have hheader : Makes (fun entry => entry.2.Finite) (headerValueEntry nesting) :=
    .next fun _ => .next fun _ => (value_finite nesting).bind fun _ hv => .next fun _ => .pure hv
  refine .orElse (.next fun _ => ?_) (.orElse (.next fun _ => ?_) (.next fun _ => ?_))
  · exact (entries_finite hheader).bind fun _ hentries => .pure hentries
  · exact (objectValue_finite nesting).bind fun _ hentries => .pure hentries
  · exact (objectValue_finite nesting).bind fun _ hentries => .pure hentries

theorem request_finite (nesting : Nat) :
    Makes (fun request => ∀ section_ ∈ request.sections, section_.Finite) (request nesting) := by
  have hsections : Makes (fun sections => ∀ section_ ∈ sections, section_.Finite)
      (braces (many (requestSection nesting)) <|> pure []) :=
    .orElse (between_finite (requestSection_finite nesting).many) (.pure (List.forall_mem_nil _))
  exact .next fun _ => .next fun _ => .next fun _ => hsections.bind fun _ h => .pure h

theorem typedRule_finite {value : Rule Tree.Value} {assertionObject : Rule (List Tree.FieldAssertion)}
    (hvalue : Makes Tree.Value.Finite value)
    (hobject : Makes Tree.FieldAssertion.FiniteAll assertionObject) :
    Makes (fun rule => (∀ v ∈ rule.2.1, v.Finite) ∧ ∀ nested ∈ rule.2.2, nested.Finite)
      (typedRule value assertionObject) := by
  refine .orElse (.next fun _ => .next fun type => .pure ?_) <|
    .orElse (.next fun _ => .next fun type => .next fun _ => hvalue.bind fun v hv => .pure ?_)
      (.next fun _ => .next fun _ => hobject.bind fun fields hfields => .pure ?_)
  · exact ⟨nofun, nofun⟩
  · exact ⟨fun _ h => Option.some.inj h ▸ hv, nofun⟩
  · exact ⟨nofun, fun _ h => Option.some.inj h ▸ hfields⟩

theorem fieldAssertion_finite {value : Rule Tree.Value}
    {assertionObject : Rule (List Tree.FieldAssertion)} (hvalue : Makes Tree.Value.Finite value)
    (hobject : Makes Tree.FieldAssertion.FiniteAll assertionObject) :
    Makes Tree.FieldAssertion.Finite (fieldAssertion value assertionObject) := by
  refine .orElse (.next fun name => (typedRule_finite hvalue hobject).bind fun rule hrule =>
    .next fun captured => .next fun _ => .pure ?_)
      (.next fun name => .next fun _ => hvalue.bind fun v hv => .next fun _ => .pure ?_)
  · obtain ⟨type, expectedValue, nested⟩ := rule
    obtain ⟨hvalues, hnested⟩ := hrule
    rw [Tree.FieldAssertion.Finite.eq_def]
    cases nested with
    | none => exact ⟨hvalues, trivial⟩
    | some nested => exact ⟨hvalues, hnested nested rfl⟩
  · rw [Tree.FieldAssertion.Finite.eq_def]
    exact ⟨fun _ h => Option.some.inj h ▸ hv, trivial⟩

theorem assertionObject_finite (nesting : Nat) :
    Makes Tree.FieldAssertion.FiniteAll (assertionObject nesting) := by
  induction nesting with
  | zero => exact .never
  | succ nesting ih =>
    exact between_finite ((fieldAssertion_finite (value_finite nesting) ih).many.mono fun _ =>
      finiteFields_iff.mpr)

theorem expectationSection_finite (nesting : Nat) :
    Makes Tree.ExpectationSection.Finite (expectationSection nesting) := by
  have hbody : Makes (fun body => Tree.ExpectationSection.Finite (.body body))
      (bodyAssertion nesting) := by
    refine .orElse (.next fun _ => .next fun _ => .next fun _ => .pure trivial) <|
      .orElse (.next fun _ => .next fun _ => .next fun _ => .next fun _ => .pure trivial) <|
      .orElse (.next fun _ => .next fun _ => .next fun _ => .next fun _ => .pure trivial)
        (.next fun _ => .next fun mode => ?_)
    exact (assertionObject_finite nesting).bind fun fields hfields => .pure hfields
  exact .orElse (.next fun _ => .pure trivial) <|
    .orElse (.next fun _ => .next fun _ => .pure trivial) (hbody.bind fun _ h => .pure h)

theorem test_finite (nesting : Nat) : Makes Tree.Test.Finite (test nesting) := by
  have hexpectation : Makes (fun sections => ∀ section_ ∈ sections, section_.Finite)
      (expectation nesting) :=
    .next fun _ => between_finite (expectationSection_finite nesting).many
  refine .next fun _ => .next fun name => between_finite ?_
  exact (request_finite nesting).many1.bind fun requests hrequests =>
    hexpectation.many1.bind fun expectations hexpectations => .pure ⟨hrequests, hexpectations⟩

theorem block_finite (nesting : Nat) : Makes Tree.Block.Finite (block nesting) := by
  have hpipeline : Makes (fun pipeline : String × List Tree.Test => ∀ t ∈ pipeline.2, t.Finite)
      (pipelineBlock nesting) :=
    .next fun _ => .next fun name => (between_finite (test_finite nesting).many1).bind
      fun tests htests => .pure htests
  have hcore : Makes (fun tests => ∀ t ∈ tests, t.Finite) (coreBlock nesting) :=
    .next fun _ => between_finite (test_finite nesting).many
  exact .orElse (hcore.bind fun _ h => .pure h) <|
    .orElse (hpipeline.bind fun _ h => .pure h) ((test_finite nesting).bind fun _ h => .pure h)

/-- **The numbers of a suite are finite.** -/
theorem suite_finite (nesting : Nat) :
    Makes (fun blocks => ∀ b ∈ blocks, b.Finite) (suite nesting) :=
  fun w blocks h hw => (block_finite nesting).many1 w blocks h.1 hw

end Grammar

/-! ## Sources -/

theorem mem_upToEof {tokens : List Token} {kind : TokenKind} (h : kind ∈ Parser.upToEof tokens) :
    ∃ t ∈ tokens, t.kind = kind ∧ kind ≠ .eof := by
  induction tokens with
  | nil => cases h
  | cons t tokens ih =>
    rw [Parser.upToEof] at h
    split at h
    · cases h
    · next heof =>
      rcases List.mem_cons.mp h with rfl | h
      · refine ⟨t, List.mem_cons_self, rfl, ?_⟩
        intro hkind
        rw [hkind] at heof
        exact heof rfl
      · obtain ⟨t, ht, hkind⟩ := ih h
        exact ⟨t, List.mem_cons_of_mem _ ht, hkind⟩

variable [Platform]

/-- What the lexer makes, the end aside. -/
theorem lex_scannable (source : SourceText) :
    ∀ kind ∈ Parser.upToEof (lex source).tokens, kind.Scannable := by
  intro kind hkind
  obtain ⟨pieces, hok, -, hlex⟩ := Lexer.scanAll_eq 0 source.content.toList
  obtain ⟨t, ht, rfl, heof⟩ := mem_upToEof hkind
  have htokens := Piece.tokens_result 0 pieces
  rw [← hlex] at htokens
  rw [show (lex source).tokens = _ from htokens] at ht
  rcases List.mem_append.mp ht with ht | ht
  · obtain ⟨⟨start, piece⟩, hmem, htoken⟩ := List.mem_filterMap.mp ht
    cases hok piece (Piece.mem_of_placed hmem) with
    | token htext hscannable =>
      obtain rfl := Option.some.inj htoken
      exact hscannable
    | _ => cases htoken
  · rw [List.mem_singleton.mp ht] at heof
    exact absurd rfl heof

/-- **The numbers of a source are finite.** -/
theorem SourceText.ast_finite {source : SourceText}
    (h : (parse (lex source).tokens).errors = []) : ∀ b ∈ source.ast.erase, b.Finite := by
  obtain ⟨nesting, hgrammar⟩ := source.ast_grammar h
  exact Grammar.suite_finite nesting _ _ hgrammar (lex_scannable source)

/-- A test of a parsed source. -/
theorem SourceText.test_finite {source : SourceText}
    (h : (parse (lex source).tokens).errors = []) {block : BlockAst} (hblock : block ∈ source.ast.blocks)
    {test : TestAst} (htest : test ∈ block.tests) : test.erase.Finite := by
  have hfinite := source.ast_finite h block.erase (List.mem_map_of_mem hblock)
  cases block with
  | core block => exact hfinite _ (List.mem_map_of_mem htest)
  | pipeline block => exact hfinite _ (List.mem_map_of_mem htest)
  | test t =>
    obtain rfl := List.mem_singleton.mp htest
    exact hfinite

end Rettp
