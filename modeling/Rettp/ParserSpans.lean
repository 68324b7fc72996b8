import Rettp.ParserReads

/-!
# The spans that the parser makes

Function by function: where the parser records no error, the node that it returns covers the
tokens that the function has passed over.
-/

namespace Rettp

variable [Platform]

open Grammar (methodOf typeOf)

variable {n : Nat}

/-- What is found, if anything, covers the tokens. -/
def Found {α : Type} (node : α → SpanNode) (found : Option α) (ts : List Token) : Prop :=
  ∀ a, found = some a → (node a).Covers ts

/-- A keyword, and behind it between braces what a loop collects. -/
theorem keywordBlock_parses {α β : Type} {keyword : TokenKind} {start open_ close : String}
    {stop : TokenKind → Bool} {item : List α → ParserM (List α)} {parts : List α → List SpanPart}
    {make : List α → SourceSpan → β} {node : β → SpanNode} (hbare : keyword.isBare = true)
    (heof : keyword.isEof = false)
    (hitem : ∀ as ts, CoverAll (parts as) ts →
      Parses n ts (item as) fun as ts => CoverAll (parts as) ts)
    (hnil : CoverAll (parts []) [])
    (hnode : ∀ as span, node (make as span) = .branch span (.token keyword :: braced (parts as))) :
    Parses n [] (do
      let start ← consumeStart keyword start
      let _ ← consume .leftBrace open_
      let as ← closed .rightBrace close (untilNext stop item [])
      pure (make as (← spanFrom start))) fun b ts => (node b).Covers ts := by
  refine .consumeStart hbare heof fun k hk => .consume rfl rfl fun l hl => .call
    (.closed rfl rfl (.untilNext hitem hnil)) ?_
  rintro as _ ⟨ts, r, hts, hr, rfl⟩
  refine .spanFrom (List.cons_ne_nil _ _) rfl (.pure ?_)
  rw [hnode]
  exact .branch (((CoverAll.single (.token hk)).snoc (.token hl)).append (hts.snoc (.token hr)))
    (List.cons_ne_nil _ _)

omit [Platform] in
/-- From a keyword to the end of the node behind it. -/
theorem hull_keyword {k : Token} {node : SpanNode} {ts : List Token} (h : node.Covers ts) :
    (⟨k.span.start, node.span.end_⟩ : SourceSpan) = hull ([k] ++ ts) := by
  rw [hull_append (List.cons_ne_nil _ _) h.ne_nil, ← h.span_eq]
  rfl

/-! ## Leaves -/

/-- A string literal covers its token. -/
theorem stringLiteral_parses (description : String) :
    Parses n [] (stringLiteral description) fun text ts => text.textNode.Covers ts := by
  have hother (span : SourceSpan) : Recorder.Reports (M := parserRecording)
      (do expected description; pure (⟨"", span⟩ : Spanned String)) :=
    (expected_reports _).bind_left _
  refine .next (fun t => ?_) fun span => .report (hother span)
  generalize hkind : t.kind = kind
  cases kind with
  | stringLiteral value => exact .bump (.pure (.leaf hkind))
  | _ => exact .report (hother t.span)

omit [Platform] in
/-- A key covers its token. -/
theorem objectKey_parses : Parses n [] objectKey (Found Spanned.keyNode) := by
  refine .next (fun t => ?_) fun span => .pure fun _ h => nomatch h
  rw [Option.bind_some]
  cases hkey : keyText t.kind with
  | none => exact .pure fun _ h => nomatch h
  | some value =>
    refine .bump (.pure fun key h => ?_)
    obtain rfl := Option.some.inj h
    exact .leaf hkey

/-! ## Values -/

omit [Platform] in
/-- A name and a value with an equals sign between them. -/
theorem covers_assignment {name value : SpanNode} {ts us : List Token} {t : Token}
    (hname : name.Covers ts) (ht : t.kind = .equal) (hvalue : value.Covers us) :
    (SpanNode.branch ⟨name.span.start, value.span.end_⟩
      [.child name, .token .equal, .child value]).Covers (ts ++ [t] ++ us) := by
  have hne : ts ++ [t] ≠ [] := List.append_ne_nil_of_right_ne_nil _ (List.cons_ne_nil _ _)
  rw [SpanNode.Covers, hname.span_eq, hvalue.span_eq, hull_append hne hvalue.ne_nil,
    hull_append hname.ne_nil (List.cons_ne_nil _ _)]
  exact ⟨((CoverAll.single (.child hname)).snoc (.token ht)).snoc (.child hvalue),
    List.append_ne_nil_of_left_ne_nil hne _, rfl⟩

section Values

variable {parseValue : ParserM (Option ValueAst)}

/-- One more entry of an object covers its tokens. -/
theorem objectValueEntry_parses (h : Parses n [] parseValue (Found ValueAst.node))
    (entries : List ObjectValueEntryAst) (ts : List Token)
    (hentries : CoverAll (listed (entryNodes entries)) ts) :
    Parses n ts (objectValueEntry parseValue entries) fun entries ts =>
      CoverAll (listed (entryNodes entries)) ts := by
  refine .call objectKey_parses ?_
  rintro (_ | key) ks hkey
  · exact .report ((expected_reports _).bind_left _)
  refine .consume rfl rfl fun t ht => .call h ?_
  rintro (_ | value) vs hvalue
  · exact .report ((expected_reports _).bind_left _)
  refine .comma fun commas hcommas => .pure ?_
  have hentry : (ObjectValueEntryAst.node
      ⟨key, value, ⟨key.span.start, value.span.end_⟩⟩).Covers (ks ++ [t] ++ vs) := by
    rw [ObjectValueEntryAst.node, ← ValueAst.node_span]
    exact covers_assignment (hkey key rfl) ht (hvalue value rfl)
  rw [entryNodes_eq] at hentries ⊢
  have hsnoc := hentries.listed_snoc hentry hcommas
  rwa [← List.append_assoc, ← List.append_assoc] at hsnoc

/-- An object covers its tokens if its values do. -/
theorem parseObjectValueWith_parses (h : ∀ m < n, Parses m [] parseValue (Found ValueAst.node)) :
    Parses n [] (parseObjectValueWith parseValue) fun object ts => object.node.Covers ts := by
  refine .take rfl rfl (fun t ht => ?_)
    (.report (.bind_right _ fun _ => (expected_reports _).bind_left _))
  refine .opened (fun m hm => .closed rfl rfl
    (.untilNext (objectValueEntry_parses (h m hm)) (by rw [entryNodes]; exact .nil))) ?_
  rintro entries _ ⟨ts, r, hts, hr, rfl⟩
  exact .branch (.cons (.token ht) (hts.snoc (.token hr))) (List.cons_ne_nil _ _)

/-- One more item of an array covers its tokens. -/
theorem arrayItem_parses (h : Parses n [] parseValue (Found ValueAst.node)) (items : List ValueAst)
    (ts : List Token) (hitems : CoverAll (listed (itemNodes items)) ts) :
    Parses n ts (arrayItem parseValue items) fun items ts =>
      CoverAll (listed (itemNodes items)) ts := by
  refine .call h ?_
  rintro (_ | value) vs hvalue
  · exact .report ((expected_reports _).bind_left _)
  have hsnoc (commas : List Token) (hcommas : (SpanPart.optional [.comma]).Covers commas) :
      CoverAll (listed (itemNodes (items ++ [value]))) (ts ++ vs ++ commas) := by
    rw [itemNodes_eq] at hitems ⊢
    exact hitems.listed_snoc (hvalue value rfl) hcommas
  refine .take rfl rfl (fun t ht => .pure ?_) (.read fun closes => .ite (fun _ => .pure ?_) fun _ =>
    .report ((expected_reports _).bind_left _))
  · exact hsnoc [t] (.present (congrArg ([·]) ht))
  · have hnone := hsnoc [] (.absent _)
    rwa [List.append_nil] at hnone

/-- An array covers its tokens if its items do. -/
theorem parseArrayValueWith_parses (h : ∀ m < n, Parses m [] parseValue (Found ValueAst.node)) :
    Parses n [] (parseArrayValueWith parseValue) fun array ts =>
      (ValueAst.array array).node.Covers ts := by
  refine .take rfl rfl (fun t ht => ?_)
    (.report (.bind_right _ fun _ => (expected_reports _).bind_left _))
  refine .opened (fun m hm => .closed rfl rfl
    (.untilNext (arrayItem_parses (h m hm)) (by rw [itemNodes]; exact .nil))) ?_
  rintro items _ ⟨ts, r, hts, hr, rfl⟩
  rw [ValueAst.node]
  exact .branch (.cons (.token ht) (hts.snoc (.token hr))) (List.cons_ne_nil _ _)

/-- A literal covers its tokens if what is nested in it does. -/
theorem parseValueWith_parses (h : ∀ m < n, Parses m [] parseValue (Found ValueAst.node)) :
    Parses n [] (parseValueWith parseValue) (Found ValueAst.node) := by
  have hfound {value : ValueAst} {ts : List Token} (hvalue : value.node.Covers ts) :
      Found ValueAst.node (some value) ts := by
    intro a ha
    rwa [← Option.some.inj ha]
  have hleaf {t : Token} {value : ValueAst} {means : TokenKind → Prop} (hmeans : means t.kind)
      (hnode : value.node = .leaf means t.span) :
      ParsesWhen (Faces t) n [] (do bump; pure (some value)) (Found ValueAst.node) :=
    .bump (.pure (hfound (hnode ▸ .leaf hmeans)))
  refine .next (fun t => ?_) fun span => .pure fun _ h => nomatch h
  generalize hkind : t.kind = kind
  cases kind with
  | stringLiteral value => exact hleaf hkind (by rw [ValueAst.node]; rfl)
  | integerLiteral value => exact hleaf hkind (by rw [ValueAst.node]; rfl)
  | numberLiteral value => exact hleaf hkind (by rw [ValueAst.node])
  | true_ => exact hleaf hkind (by rw [ValueAst.node])
  | false_ => exact hleaf hkind (by rw [ValueAst.node])
  | null => exact hleaf hkind (by rw [ValueAst.node])
  | leftBracket =>
    exact .of_reads (.call (parseArrayValueWith_parses h) fun array ts hts => .pure (hfound hts))
  | leftBrace =>
    refine .of_reads (.call (parseObjectValueWith_parses h) fun object ts hts =>
      .pure (hfound ?_))
    rwa [ValueAst.node_object]
  | _ => exact .pure fun _ h => nomatch h

end Values

/-- A literal with so many levels left covers its tokens. -/
theorem parseValueAt_parses (depth : Nat) :
    Parses depth [] (parseValueAt depth) (Found ValueAst.node) := by
  induction depth with
  | zero => exact parseValueWith_parses fun m hm => absurd hm (Nat.not_lt_zero m)
  | succ depth ih => exact parseValueWith_parses fun m hm => ih.mono (Nat.le_of_lt_succ hm)

/-- **A literal** covers its tokens. -/
theorem parseValue_parses : Parses n [] parseValue (Found ValueAst.node) :=
  fun p q hstream hpassed _ => parseValueAt_parses q.nestingLeft p q hstream hpassed (Nat.le_refl _)

/-- An object covers its tokens. -/
theorem parseObjectValue_parses :
    Parses n [] parseObjectValue fun object ts => object.node.Covers ts :=
  parseObjectValueWith_parses fun _ _ => parseValue_parses

/-! ## Requests -/

/-- A method covers its token. -/
theorem parseHttpMethod_parses : Parses n [] parseHttpMethod fun method ts =>
    (SpanNode.leaf (fun kind => methodOf kind = some method.value) method.span).Covers ts := by
  refine .next (fun t => ?_) fun span => .report ((expected_reports _).bind_left _)
  generalize hkind : t.kind = kind
  cases kind with
  | get | post | put | patch | delete | head | options =>
    exact .bump (.pure (.leaf (by rw [hkind]; rfl)))
  | _ => exact .report ((expected_reports _).bind_left _)

/-- One more request header covers its tokens. -/
theorem requestHeader_parses (entries : List HeaderValueEntryAst) (ts : List Token)
    (hentries : CoverAll (listed (entries.map HeaderValueEntryAst.node)) ts) :
    Parses n ts (requestHeader entries) fun entries ts =>
      CoverAll (listed (entries.map HeaderValueEntryAst.node)) ts := by
  refine .call (stringLiteral_parses _) fun name ns hname => ?_
  refine .consume rfl rfl fun t ht => .call parseValue_parses ?_
  rintro (_ | value) vs hvalue
  · exact .report ((expected_reports _).bind_left _)
  refine .comma fun commas hcommas => .pure ?_
  have hentry : (HeaderValueEntryAst.node
      ⟨name, value, ⟨name.span.start, value.span.end_⟩⟩).Covers (ns ++ [t] ++ vs) := by
    rw [HeaderValueEntryAst.node, ← ValueAst.node_span]
    exact covers_assignment hname ht (hvalue value rfl)
  have hsnoc := hentries.listed_snoc hentry hcommas
  rwa [← List.append_assoc, ← List.append_assoc] at hsnoc

/-- The headers of a request cover their tokens. -/
theorem parseRequestHeaders_parses :
    Parses n [] parseRequestHeaders fun headers ts => headers.node.Covers ts :=
  keywordBlock_parses rfl rfl requestHeader_parses .nil fun _ _ => rfl

/-- The query of a request covers its tokens. -/
theorem parseRequestQuery_parses :
    Parses n [] parseRequestQuery fun query ts => query.node.Covers ts := by
  refine .consumeStart rfl rfl fun k hk => .call parseObjectValue_parses fun object ts hts =>
    .pure ?_
  have hspan : (⟨k.span.start, object.span.end_⟩ : SourceSpan) = hull ([k] ++ ts) :=
    hull_keyword hts
  rw [hspan]
  rw [ObjectValueAst.node, SpanNode.Covers] at hts
  exact .branch (.cons (.token hk) hts.1) (List.cons_ne_nil _ _)

/-- The body of a request covers its tokens. -/
theorem parseRequestBody_parses :
    Parses n [] parseRequestBody fun body ts => body.node.Covers ts := by
  refine .consumeStart rfl rfl fun k hk => .call parseObjectValue_parses fun object ts hts =>
    .pure ?_
  have hspan : (⟨k.span.start, object.span.end_⟩ : SourceSpan) = hull ([k] ++ ts) :=
    hull_keyword hts
  rw [hspan]
  exact .branch ((CoverAll.single (.token hk)).snoc (.child hts)) (List.cons_ne_nil _ _)

/-- One more section of a request covers its tokens. -/
theorem requestSection_parses (sections : List RequestSectionAst) (ts : List Token)
    (hsections : CoverAll (childParts (sections.map RequestSectionAst.node)) ts) :
    Parses n ts (requestSection sections) fun sections ts =>
      CoverAll (childParts (sections.map RequestSectionAst.node)) ts := by
  refine .read fun kind => ?_
  split
  · exact .call parseRequestHeaders_parses fun _ us hus => .pure (hsections.child_snoc hus)
  · exact .call parseRequestQuery_parses fun _ us hus => .pure (hsections.child_snoc hus)
  · exact .call parseRequestBody_parses fun _ us hus => .pure (hsections.child_snoc hus)
  · exact .report ((expected_reports _).bind_left _)

omit [Platform] in
/-- Braces around sections, of which there may be none. -/
theorem sectionParts_cover {sections : List RequestSectionAst} {l r : Token} {ts : List Token}
    (hl : l.kind = .leftBrace) (hr : r.kind = .rightBrace)
    (h : CoverAll (childParts (sections.map RequestSectionAst.node)) ts) :
    CoverAll (sectionParts sections) (l :: (ts ++ [r])) := by
  cases sections with
  | nil =>
    rw [List.map_nil, childParts, List.map_nil, CoverAll] at h
    rw [h, sectionParts]
    exact .single (.present (congrArg₂ (fun a b => [a, b]) hl hr))
  | cons section_ sections => exact .cons (.token hl) (h.snoc (.token hr))

/-- **A request** covers its tokens. -/
theorem parseRequest_parses :
    Parses n [] parseRequest fun request ts => request.node.Covers ts := by
  refine .consumeStart rfl rfl fun k hk => .call parseHttpMethod_parses fun method ms hmethod =>
    .call (stringLiteral_parses _) fun path ps hpath => ?_
  have hstart := ((CoverAll.single (.token hk)).snoc (.child hmethod)).snoc (.child hpath)
  refine .take rfl rfl (fun l hl => .call
    (.closed rfl rfl (.untilNext requestSection_parses .nil)) ?_) ?_
  · rintro sections _ ⟨ts, r, hts, hr, rfl⟩
    rw [List.append_assoc]
    refine .spanFrom (List.cons_ne_nil _ _) rfl (.pure (.branch ?_ (List.cons_ne_nil _ _)))
    exact hstart.append (sectionParts_cover hl hr hts)
  · refine .spanFrom (List.cons_ne_nil _ _) rfl (.pure (.branch ?_ (List.cons_ne_nil _ _)))
    have hall := hstart.snoc (.absent [.leftBrace, .rightBrace])
    rw [List.append_nil] at hall
    exact hall

/-! ## Expectations -/

/-- A status assertion covers its tokens. -/
theorem parseStatusAssertion_parses :
    Parses n [] parseStatusAssertion fun status ts => status.node.Covers ts := by
  refine .consumeStart rfl rfl fun k hk => .consume rfl rfl fun e he => .next (fun t => ?_)
    fun span => .report ((expected_reports _).bind_left _)
  generalize hkind : t.kind = kind
  cases kind with
  | integerLiteral value =>
    refine .bump (.comma fun commas hcommas => .spanFrom (List.cons_ne_nil _ _) rfl
      (.pure (.branch ?_ (List.cons_ne_nil _ _))))
    exact (((CoverAll.single (.token hk)).snoc (.token he)).snoc (.child (.leaf hkind))).snoc
      hcommas
  | _ => exact .report ((expected_reports _).bind_left _)

/-- One more header assertion covers its tokens. -/
theorem responseHeader_parses (entries : List ResponseHeaderAssertionAst) (ts : List Token)
    (hentries : CoverAll (listed (entries.map ResponseHeaderAssertionAst.node)) ts) :
    Parses n ts (responseHeader entries) fun entries ts =>
      CoverAll (listed (entries.map ResponseHeaderAssertionAst.node)) ts := by
  have hone : Parses n [] (responseHeader entries) fun entries' us =>
      ∃ entry vs commas, entries' = entries ++ [entry] ∧ us = vs ++ commas ∧
        (ResponseHeaderAssertionAst.node entry).Covers vs ∧
          (SpanPart.optional [.comma]).Covers commas := by
    refine .call (stringLiteral_parses _) fun name ns hname => ?_
    have hne (vs : List Token) : ns ++ vs ≠ [] := List.append_ne_nil_of_left_ne_nil hname.ne_nil vs
    have hstart (us vs : List Token) : name.span.start = (hull (ns ++ us ++ vs)).start := by
      rw [List.append_assoc, hull_append_start hname.ne_nil, ← hname.span_eq]
      rfl
    have hname' := CoverAll.single (.child hname)
    refine .take rfl rfl (fun t ht => .consume rfl rfl fun u hu => .read fun here =>
      .spanFrom (List.append_ne_nil_of_left_ne_nil (hne _) _) (hstart _ _)
        (.comma fun commas hcommas => .pure ⟨_, _, commas, rfl, rfl, ?_, hcommas⟩)) <|
      .take rfl rfl (fun t ht => .call (stringLiteral_parses _) fun value vs hvalue =>
        .spanFrom (List.append_ne_nil_of_left_ne_nil (hne _) _) (hstart _ _)
          (.comma fun commas hcommas => .pure ⟨_, _, commas, rfl, rfl, ?_, hcommas⟩)) <|
      .contextual (fun t ht => .call (stringLiteral_parses _) fun value vs hvalue =>
        .spanFrom (List.append_ne_nil_of_left_ne_nil (hne _) _) (hstart _ _)
          (.comma fun commas hcommas => .pure ⟨_, _, commas, rfl, rfl, ?_, hcommas⟩)) <|
      .report ((expected_reports _).bind_left _)
    · exact .branch ((hname'.snoc (.token ht)).snoc (.child (.leaf hu)))
        (List.append_ne_nil_of_left_ne_nil (hne _) _)
    · exact .branch ((hname'.snoc (.token ht)).snoc (.child hvalue))
        (List.append_ne_nil_of_left_ne_nil (hne _) _)
    · exact .branch ((hname'.snoc (.token ht)).snoc (.child hvalue))
        (List.append_ne_nil_of_left_ne_nil (hne _) _)
  refine hone.lift ?_
  rintro _ _ ⟨entry, vs, commas, rfl, rfl, hentry, hcommas⟩
  rw [← List.append_assoc]
  exact hentries.listed_snoc hentry hcommas

/-- The headers of an expectation cover their tokens. -/
theorem parseResponseHeaders_parses :
    Parses n [] parseResponseHeaders fun headers ts => headers.node.Covers ts :=
  keywordBlock_parses rfl rfl responseHeader_parses .nil fun _ _ => rfl

/-- A type that is found, without the colon before it. -/
theorem parseAssertionType_parses : Parses n [] parseAssertionType fun found ts =>
    ∃ type, found = some type ∧
      (SpanNode.leaf (fun kind => typeOf kind = some type.value) type.span).Covers ts := by
  refine .next (fun t => ?_) fun span => .report ((expected_reports _).bind_left _)
  generalize hkind : t.kind = kind
  cases kind with
  | typeString | typeBoolean | typeInteger | typeNumber | typeObject | typeArray | null =>
    exact .bump (.pure ⟨_, rfl, .leaf (by rw [hkind]; rfl)⟩)
  | _ => exact .report ((expected_reports _).bind_left _)

/-- The name of a capture covers its token. -/
theorem parseCaptureName_parses : Parses n [] parseCaptureName fun capture ts =>
    (SpanNode.leaf (· = .identifier capture.value) capture.span).Covers ts := by
  refine .next (fun t => ?_) fun span => .report ((expected_reports _).bind_left _)
  generalize hkind : t.kind = kind
  cases kind with
  | identifier value => exact .bump (.pure (.leaf hkind))
  | _ => exact .report ((expected_reports _).bind_left _)

/-- A capture covers its tokens. -/
theorem parseCapture_parses (expectedType : Option (Spanned AssertionTypeAst)) :
    Parses n [] (parseCapture expectedType)
      fun capture ts => CoverAll (captureParts capture) ts := by
  refine .take rfl rfl (fun t ht => .pushErrorIf fun _ => .call parseCaptureName_parses
    fun capture ts hts => .pure ?_) (.pure .nil)
  exact .cons (.token ht) (.single (.child hts))

section ObjectAssertions

variable {parseNested : ParserM ObjectAssertionAst}

/-- What follows the type of a field covers its tokens. -/
theorem parseFieldOperand_parses
    (h : Parses n [] parseNested fun assertion ts => assertion.node.Covers ts)
    (expectedType : Option (Spanned AssertionTypeAst)) :
    Parses n [] (parseFieldOperand parseNested expectedType) fun operand ts =>
      CoverAll (valueParts operand.1 ++ nestedParts operand.2) ts := by
  have hnone : CoverAll (valueParts none ++ nestedParts none) [] := by
    rw [valueParts, nestedParts]
    exact .nil
  refine .take rfl rfl (fun t ht => .call parseValue_parses ?_) (.read fun braces => .ite
    (fun _ => .call h fun assertion ts hts => .pure ?_) fun _ => .pure hnone)
  · rintro (_ | value) ts hvalue
    · exact .report ((expected_reports _).bind_left _)
    · refine .pure ?_
      rw [valueParts, nestedParts]
      exact .cons (.token ht) (.single (.child (hvalue value rfl)))
  · rw [valueParts, nestedParts_some]
    exact .single (.child hts)

/-- The name of a field and what follows it up to its type have been passed. -/
theorem parseFieldRest_parses
    (h : Parses n [] parseNested fun assertion ts => assertion.node.Covers ts)
    {name : Spanned String} {expectedType : Option (Spanned AssertionTypeAst)} {ts : List Token}
    (hne : ts ≠ []) (hstart : name.span.start = (hull ts).start)
    (hts : CoverAll (.child name.keyNode :: typeParts expectedType) ts) :
    Parses n ts (parseFieldRest parseNested name expectedType) fun field ts =>
      field.node.Covers ts := by
  refine .call (parseFieldOperand_parses h expectedType) fun operand us hus =>
    .call (parseCapture_parses expectedType) fun capture vs hvs => .pushErrorIf fun _ => ?_
  have hne' : ts ++ us ++ vs ≠ [] :=
    List.append_ne_nil_of_left_ne_nil (List.append_ne_nil_of_left_ne_nil hne us) vs
  refine .spanFrom hne' ?_ (.pure ?_)
  · rw [List.append_assoc, hull_append_start hne, hstart]
  · rw [FieldAssertionAst.node]
    exact .branch ((hts.append hus).append hvs) hne'

/-- A field covers its tokens. -/
theorem parseFieldAssertion_parses
    (h : Parses n [] parseNested fun assertion ts => assertion.node.Covers ts) :
    Parses n [] (parseFieldAssertion parseNested) fun found ts =>
      ∃ field, found = some field ∧ (FieldAssertionAst.node field).Covers ts := by
  refine .call objectKey_parses ?_
  rintro (_ | name) ks hkey
  · exact .report ((expected_reports _).bind_left _)
  have hname := hkey name rfl
  have hstart (us : List Token) : name.span.start = (hull (ks ++ us)).start := by
    rw [hull_append_start hname.ne_nil, ← hname.span_eq]
    rfl
  have hne (us : List Token) : ks ++ us ≠ [] := List.append_ne_nil_of_left_ne_nil hname.ne_nil us
  refine .take rfl rfl (fun t ht => ?_) ?_
  · refine .bind (R := fun field ts => (FieldAssertionAst.node field).Covers ts) (.call
      parseAssertionType_parses ?_) fun field us hus => .pure ⟨field, rfl, hus⟩
    rintro _ ts ⟨type, rfl, htype⟩
    rw [List.append_assoc]
    refine parseFieldRest_parses h (hne _) (hstart _) ?_
    exact .cons (.child hname) (.cons (.token ht) (.single (.child htype)))
  · refine .bind (R := fun field ts => (FieldAssertionAst.node field).Covers ts) ?_
      fun field us hus => .pure ⟨field, rfl, hus⟩
    have hrest : Parses n (ks ++ []) (parseFieldRest parseNested name none) fun field ts =>
        field.node.Covers ts :=
      parseFieldRest_parses h (hne []) (hstart []) ((CoverAll.single (.child hname)).append .nil)
    rwa [List.append_nil] at hrest

/-- One more field covers its tokens. -/
theorem fieldAssertion_parses
    (h : Parses n [] parseNested fun assertion ts => assertion.node.Covers ts)
    (fields : List FieldAssertionAst) (ts : List Token)
    (hfields : CoverAll (listed (fieldNodes fields)) ts) :
    Parses n ts (fieldAssertion parseNested fields) fun fields ts =>
      CoverAll (listed (fieldNodes fields)) ts := by
  refine .call (parseFieldAssertion_parses h) ?_
  rintro _ us ⟨field, rfl, hfield⟩
  refine .comma fun commas hcommas => .pure ?_
  rw [fieldNodes_eq] at hfields ⊢
  exact hfields.listed_snoc hfield hcommas

/-- An object assertion covers its tokens if what is nested in it does. -/
theorem parseObjectAssertionWith_parses
    (h : ∀ m < n, Parses m [] parseNested fun assertion ts => assertion.node.Covers ts)
    (mode : ObjectMatchModeAst) :
    Parses n [] (parseObjectAssertionWith parseNested mode) fun assertion ts =>
      assertion.mode = mode ∧ assertion.node.Covers ts := by
  refine .take rfl rfl (fun t ht => ?_)
    (.report (.bind_right _ fun _ => (expected_reports _).bind_left _))
  refine .opened (fun m hm => .closed rfl rfl
    (.untilNext (fieldAssertion_parses (h m hm)) (by rw [fieldNodes]; exact .nil))) ?_
  rintro fields _ ⟨ts, r, hts, hr, rfl⟩
  exact ⟨rfl, .branch (.cons (.token ht) (hts.snoc (.token hr))) (List.cons_ne_nil _ _)⟩

end ObjectAssertions

/-- An object assertion with so many levels left covers its tokens. -/
theorem parseObjectAssertionAt_parses (depth : Nat) (mode : ObjectMatchModeAst) :
    Parses depth [] (parseObjectAssertionAt depth mode) fun assertion ts =>
      assertion.mode = mode ∧ assertion.node.Covers ts := by
  induction depth generalizing mode with
  | zero => exact parseObjectAssertionWith_parses (fun m hm => absurd hm (Nat.not_lt_zero m)) mode
  | succ depth ih =>
    refine parseObjectAssertionWith_parses (fun m hm => ?_) mode
    exact ((ih .partially).mono (Nat.le_of_lt_succ hm)).conseq fun _ _ h => h.2

/-- **An object assertion** covers its tokens. -/
theorem parseObjectAssertion_parses (mode : ObjectMatchModeAst) :
    Parses n [] (parseObjectAssertion mode) fun assertion ts =>
      assertion.mode = mode ∧ assertion.node.Covers ts :=
  fun p q hstream hpassed _ =>
    parseObjectAssertionAt_parses q.nestingLeft mode p q hstream hpassed (Nat.le_refl _)

/-- The span of the assertion is moved to start at the keyword. -/
theorem bodyObject_parses {k : Token} {ms : List Token} {mode : ObjectMatchModeAst}
    (hk : k.kind = .body) (hms : CoverAll (modeParts mode) ms) :
    Parses n ([k] ++ ms) (do
      let assertion ← parseObjectAssertion mode
      return BodyAssertionAst.object { assertion with
        span := ⟨k.span.start, max assertion.span.end_ k.span.start⟩ }) fun body ts =>
      body.node.Covers ts := by
  refine .call (parseObjectAssertion_parses mode) fun assertion ws ⟨hmode, hws⟩ =>
    .of_ordered fun hordered => .pure ?_
  have hne : [k] ++ ms ≠ [] := List.cons_ne_nil _ _
  have hhull := hull_append hne hws.ne_nil
  have hle : k.span.start ≤ (hull ws).end_ := by
    have hhull_le := hordered.start_le_end (List.append_ne_nil_of_left_ne_nil hne ws)
    rw [hhull] at hhull_le
    exact hhull_le
  have hspan : (⟨k.span.start, max assertion.span.end_ k.span.start⟩ : SourceSpan) =
      hull ([k] ++ ms ++ ws) := by
    rw [hhull, show assertion.span = hull ws from hws.span_eq, Nat.max_eq_left hle]
    rfl
  rw [hspan]
  rw [ObjectAssertionAst.node, SpanNode.Covers] at hws
  subst hmode
  exact .branch (((CoverAll.single (.token hk)).append hms).append hws.1) (List.cons_ne_nil _ _)

/-- A body assertion covers its tokens. -/
theorem parseBodyAssertion_parses :
    Parses n [] parseBodyAssertion fun body ts => body.node.Covers ts := by
  refine .consumeStart rfl rfl fun k hk => ?_
  have hstart := CoverAll.single (.token hk)
  refine .contextual (fun t ht => .comma fun commas hcommas => .spanFrom (List.cons_ne_nil _ _) rfl
      (.pure (.branch ((hstart.snoc (.token ht)).snoc hcommas) (List.cons_ne_nil _ _)))) <|
    .take rfl rfl (fun t ht => .call (stringLiteral_parses _) fun value vs hvalue =>
      .comma fun commas hcommas => .spanFrom (List.cons_ne_nil _ _) rfl (.pure (.branch
        (((hstart.snoc (.token ht)).snoc (.child hvalue)).snoc hcommas) (List.cons_ne_nil _ _)))) <|
    .contextual (fun t ht => .call (stringLiteral_parses _) fun value vs hvalue =>
      .comma fun commas hcommas => .spanFrom (List.cons_ne_nil _ _) rfl (.pure (.branch
        (((hstart.snoc (.token ht)).snoc (.child hvalue)).snoc hcommas) (List.cons_ne_nil _ _)))) <|
    .take rfl rfl (fun t ht => bodyObject_parses hk (.single (.token ht))) ?_
  exact bodyObject_parses hk CoverAll.nil

/-- One more section of an expectation covers its tokens. -/
theorem expectationSection_parses (sections : List ExpectationSectionAst) (ts : List Token)
    (hsections : CoverAll (childParts (sections.map ExpectationSectionAst.node)) ts) :
    Parses n ts (expectationSection sections) fun sections ts =>
      CoverAll (childParts (sections.map ExpectationSectionAst.node)) ts := by
  refine .read fun kind => ?_
  split
  · exact .call parseStatusAssertion_parses fun _ us hus => .pure (hsections.child_snoc hus)
  · exact .call parseResponseHeaders_parses fun _ us hus => .pure (hsections.child_snoc hus)
  · exact .call parseBodyAssertion_parses fun _ us hus => .pure (hsections.child_snoc hus)
  · exact .report ((expected_reports _).bind_left _)

/-- **An expectation** covers its tokens. -/
theorem parseExpectation_parses :
    Parses n [] parseExpectation fun expectation ts => expectation.node.Covers ts :=
  keywordBlock_parses rfl rfl expectationSection_parses .nil fun _ _ => rfl

/-! ## Tests, blocks and suites -/

/-- The declarations of a test cover the tokens; no request comes after an expectation. -/
structure ItemsCover (items : TestItems) (ts : List Token) : Prop where
  covers : CoverAll (childParts (items.requests.map RequestAst.node ++
    items.expectations.map ExpectationAst.node)) ts
  saw : items.sawExpectation = false → items.expectations = []

/-- One more item of a test covers its tokens. -/
theorem testItem_parses (items : TestItems) (ts : List Token) (hitems : ItemsCover items ts) :
    Parses n ts (testItem items) ItemsCover := by
  obtain ⟨hcovers, hsaw⟩ := hitems
  refine .read fun kind => ?_
  split
  · refine .pushErrorIf fun hfirst => .call parseRequest_parses fun request us hus => .pure ?_
    rw [hsaw hfirst, List.map_nil, List.append_nil] at hcovers
    refine ⟨?_, fun _ => hsaw hfirst⟩
    dsimp only
    rw [hsaw hfirst, List.map_nil, List.append_nil]
    exact hcovers.child_snoc hus
  · refine .call parseExpectation_parses fun expectation us hus => .pure ⟨?_, fun h => nomatch h⟩
    dsimp only
    rw [List.map_append, ← List.append_assoc, childParts, List.map_append]
    exact hcovers.snoc (.child hus)
  · exact .report ((expected_reports _).bind_left _)

/-- **A test** covers its tokens. -/
theorem parseTest_parses : Parses n [] parseTest fun test ts => test.node.Covers ts := by
  refine .consumeStart rfl rfl fun k hk => .call (stringLiteral_parses _) fun name ns hname =>
    .consume rfl rfl fun l hl => .call (.untilNext testItem_parses ⟨.nil, fun _ => rfl⟩) ?_
  rintro ⟨requests, expectations, _⟩ ts ⟨hts, -⟩
  refine .pushErrorIf fun _ => .pushErrorIf fun _ => .consume rfl rfl fun r hr =>
    .spanFrom (List.cons_ne_nil _ _) rfl (.pure (.branch ?_ (List.cons_ne_nil _ _)))
  exact ((((CoverAll.single (.token hk)).snoc (.child hname)).snoc (.token hl)).append hts).snoc
    (.token hr)

/-- One more test of a block covers its tokens. -/
theorem containedTest_parses (description : String) (tests : List TestAst) (ts : List Token)
    (htests : CoverAll (childParts (tests.map TestAst.node)) ts) :
    Parses n ts (containedTest description tests) fun tests ts =>
      CoverAll (childParts (tests.map TestAst.node)) ts :=
  .read fun _ => .ite
    (fun _ => .call parseTest_parses fun _ _ hus => .pure (htests.child_snoc hus))
    fun _ => .report ((expected_reports _).bind_left _)

/-- A core covers its tokens. -/
theorem parseCoreBlock_parses :
    Parses n [] parseCoreBlock fun block ts => block.node.Covers ts :=
  keywordBlock_parses rfl rfl (containedTest_parses _) .nil fun _ _ => rfl

/-- A pipeline covers its tokens. -/
theorem parsePipelineBlock_parses :
    Parses n [] parsePipelineBlock fun block ts => block.node.Covers ts := by
  refine .consumeStart rfl rfl fun k hk => .call (stringLiteral_parses _) fun name ns hname =>
    .consume rfl rfl fun l hl => .call (.untilNext (containedTest_parses _) .nil)
      fun tests ts hts => .pushErrorIf fun _ => .consume rfl rfl fun r hr =>
        .spanFrom (List.cons_ne_nil _ _) rfl (.pure (.branch ?_ (List.cons_ne_nil _ _)))
  exact ((((CoverAll.single (.token hk)).snoc (.child hname)).snoc (.token hl)).append hts).snoc
    (.token hr)

/-- The blocks of a suite cover the tokens; the last one ends where they end. -/
structure BlocksCover (items : SuiteItems) (ts : List Token) : Prop where
  covers : CoverAll (childParts (items.blocks.map BlockAst.node)) ts
  ends : ∀ last, items.blocks.getLast? = some last → last.span.end_ = (hull ts).end_

/-- One more block of a suite covers its tokens. -/
theorem suiteItem_parses (items : SuiteItems) (ts : List Token) (hitems : BlocksCover items ts) :
    Parses n ts (suiteItem items) BlocksCover := by
  obtain ⟨hcovers, -⟩ := hitems
  have hsnoc (block : BlockAst) (hasCore : Bool) (us : List Token) (hus : block.node.Covers us) :
      BlocksCover ⟨items.blocks ++ [block], hasCore⟩ (ts ++ us) := by
    refine ⟨hcovers.child_snoc hus, fun last hlast => ?_⟩
    rw [List.getLast?_concat] at hlast
    rw [← Option.some.inj hlast, ← BlockAst.node_span, hus.span_eq, hull_append_end hus.ne_nil]
  refine .read fun kind => ?_
  split
  · exact .pushErrorIf fun _ => .call parseCoreBlock_parses fun block us hus =>
      .pure (hsnoc (.core block) _ us hus)
  · exact .call parsePipelineBlock_parses fun block us hus =>
      .pure (hsnoc (.pipeline block) _ us hus)
  · exact .call parseTest_parses fun test us hus => .pure (hsnoc (.test test) _ us hus)
  · exact .report ((expected_reports _).bind_left _)

/-- **The spans of a parsed tree.** Where no error is recorded, the tree covers the tokens up to
the end. -/
theorem parse_covers {p : Parser} (hstream : TokenStream p.rest) (hnone : p.errors = [])
    (h : p.parse.errors = []) : ∃ ts, ts <+: p.rest ∧ (∀ t ∈ ts, t.kind.isEof = false) ∧
      p.parse.ast.node.Covers ts := by
  obtain ⟨herrors, hblocks⟩ := (parse_errors p).mp h
  have hitems : Parses p.nestingLeft [] (untilNext (fun _ => false) suiteItem ⟨[], false⟩)
      BlocksCover := .untilNext suiteItem_parses ⟨.nil, fun _ h => nomatch h⟩
  obtain ⟨ts, hpassed, -, hcovers, hends⟩ := hitems p p hstream (.refl p) (Nat.le_refl _) trivial
    (herrors.trans hnone.symm)
  change CoverAll (childParts (p.items.1.blocks.map BlockAst.node)) ts at hcovers
  have hne : ts ≠ [] := by
    obtain ⟨block, blocks, heq⟩ := List.exists_cons_of_ne_nil hblocks
    rw [heq, List.map_cons, childParts, List.map_cons, CoverAll] at hcovers
    obtain ⟨us, vs, rfl, hblock, -⟩ := hcovers
    rw [SpanPart.Covers] at hblock
    exact List.append_ne_nil_of_left_ne_nil hblock.ne_nil vs
  have hspan : p.parse.ast.span = hull ts := by
    have hlast := List.getLast?_eq_some_getLast hblocks
    change suiteSpan (p.rest.head?.elim 0 (·.span.start)) p.items.1.blocks = _
    rw [suiteSpan, hlast, hpassed.rest]
    dsimp only
    rw [hends _ hlast]
    obtain ⟨t, us, rfl⟩ := List.exists_cons_of_ne_nil hne
    rfl
  refine ⟨ts, ⟨_, hpassed.rest.symm⟩, hpassed.live, ?_⟩
  rw [SuiteAst.node, SpanNode.Covers, hspan]
  exact ⟨hcovers, hne, rfl⟩

end Rettp
