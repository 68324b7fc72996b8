import Mathlib.Data.List.Flatten
import Mathlib.Data.List.Infix
import Rettp.Token

/-!
# Trees of spans

A node of a syntax tree as it is written: its span, and in order the words and the smaller nodes
that it is written with (`SpanNode`). `SpanNode.Covers node ts` says that the tokens `ts` are
exactly the tokens of the node, all the way down, and that every span reaches from the first to
the last of its own tokens.

Over tokens that stand one after the other (`Ordered`) this is all that is needed for spans to
nest: a node lies inside the one around it, and the nodes inside another one follow each other.
-/

namespace Rettp

mutual

/-- A node of a syntax tree. A leaf is one token; what it stands for says which ones it may be. -/
inductive SpanNode where
  | leaf (means : TokenKind → Prop) (span : SourceSpan)
  | branch (span : SourceSpan) (parts : List SpanPart)

/-- A part of a node: a word, words that may be left out, or another node. -/
inductive SpanPart where
  | token (kind : TokenKind)
  | optional (kinds : List TokenKind)
  | child (node : SpanNode)

end

/-- From the start of the first token to the end of the last one. -/
def hull (tokens : List Token) : SourceSpan :=
  ⟨tokens.head?.elim 0 (·.span.start), tokens.getLast?.elim 0 (·.span.end_)⟩

/-- The nodes among some parts, in order. -/
def childrenOf : List SpanPart → List SpanNode
  | [] => []
  | .child node :: parts => node :: childrenOf parts
  | _ :: parts => childrenOf parts

namespace SpanNode

/-- The place of a node. -/
def span : SpanNode → SourceSpan
  | .leaf _ span => span
  | .branch span _ => span

/-- The nodes directly below a node. -/
def children : SpanNode → List SpanNode
  | .leaf _ _ => []
  | .branch _ parts => childrenOf parts

end SpanNode

mutual

/-- A node and the nodes inside it. -/
def SpanNode.nodes : SpanNode → List SpanNode
  | .leaf means span => [.leaf means span]
  | .branch span parts => .branch span parts :: nodesOf parts

/-- All nodes below some parts. -/
def nodesOf : List SpanPart → List SpanNode
  | [] => []
  | part :: parts => part.nodes ++ nodesOf parts

/-- All nodes below a part. -/
def SpanPart.nodes : SpanPart → List SpanNode
  | .child node => node.nodes
  | .token _ | .optional _ => []

end

mutual

/-- The tokens of a node, and of all nodes inside it. -/
def SpanNode.Covers : SpanNode → List Token → Prop
  | .leaf means span, ts => ∃ t, ts = [t] ∧ means t.kind ∧ t.span = span
  | .branch span parts, ts => CoverAll parts ts ∧ ts ≠ [] ∧ span = hull ts

/-- The tokens of a part. -/
def SpanPart.Covers : SpanPart → List Token → Prop
  | .token kind, ts => ∃ t, ts = [t] ∧ t.kind = kind
  | .optional kinds, ts => ts = [] ∨ ts.map (·.kind) = kinds
  | .child node, ts => node.Covers ts

/-- Parts one after the other. -/
def CoverAll : List SpanPart → List Token → Prop
  | [], ts => ts = []
  | part :: parts, ts => ∃ us vs, ts = us ++ vs ∧ part.Covers us ∧ CoverAll parts vs

end

/-- Tokens that stand one after the other. -/
structure Ordered (tokens : List Token) : Prop where
  pairwise : tokens.Pairwise fun t u => t.span.end_ ≤ u.span.start
  spans : ∀ t ∈ tokens, t.span.start ≤ t.span.end_

/-! ## Parts -/

variable {part : SpanPart} {parts parts' : List SpanPart} {ts us : List Token} {t : Token}

namespace CoverAll

theorem nil : CoverAll [] [] := by rw [CoverAll]

theorem cons (h : part.Covers ts) (h' : CoverAll parts us) :
    CoverAll (part :: parts) (ts ++ us) := by
  rw [CoverAll]
  exact ⟨ts, us, rfl, h, h'⟩

theorem append (h : CoverAll parts ts) (h' : CoverAll parts' us) :
    CoverAll (parts ++ parts') (ts ++ us) := by
  induction parts generalizing ts with
  | nil =>
    rw [CoverAll] at h
    rwa [h]
  | cons part parts ih =>
    rw [CoverAll] at h
    obtain ⟨vs, ws, rfl, hpart, hparts⟩ := h
    rw [List.cons_append, List.append_assoc]
    exact cons hpart (ih hparts)

theorem single (h : part.Covers ts) : CoverAll [part] ts := by
  have hcons := cons h nil
  rwa [List.append_nil] at hcons

/-- One more part behind the others. -/
theorem snoc (h : CoverAll parts ts) (h' : part.Covers us) :
    CoverAll (parts ++ [part]) (ts ++ us) :=
  h.append (single h')

end CoverAll

namespace SpanPart.Covers

theorem token {kind : TokenKind} (h : t.kind = kind) : (SpanPart.token kind).Covers [t] := by
  rw [SpanPart.Covers]
  exact ⟨t, rfl, h⟩

theorem absent (kinds : List TokenKind) : (SpanPart.optional kinds).Covers [] := by
  rw [SpanPart.Covers]
  exact .inl rfl

theorem present {kinds : List TokenKind} (h : ts.map (·.kind) = kinds) :
    (SpanPart.optional kinds).Covers ts := by
  rw [SpanPart.Covers]
  exact .inr h

theorem child {node : SpanNode} (h : node.Covers ts) : (SpanPart.child node).Covers ts := by
  rwa [SpanPart.Covers]

end SpanPart.Covers

namespace SpanNode.Covers

theorem leaf {means : TokenKind → Prop} (h : means t.kind) :
    (SpanNode.leaf means t.span).Covers [t] := by
  rw [SpanNode.Covers]
  exact ⟨t, rfl, h, rfl⟩

theorem branch (h : CoverAll parts ts) (hne : ts ≠ []) :
    (SpanNode.branch (hull ts) parts).Covers ts := by
  rw [SpanNode.Covers]
  exact ⟨h, hne, rfl⟩

theorem ne_nil {node : SpanNode} (h : node.Covers ts) : ts ≠ [] := by
  cases node with
  | leaf means span =>
    rw [SpanNode.Covers] at h
    obtain ⟨t, rfl, -⟩ := h
    exact List.cons_ne_nil _ _
  | branch span parts =>
    rw [SpanNode.Covers] at h
    exact h.2.1

/-- A node spans its own tokens. -/
theorem span_eq {node : SpanNode} (h : node.Covers ts) : node.span = hull ts := by
  cases node with
  | leaf means span =>
    rw [SpanNode.Covers] at h
    obtain ⟨t, rfl, -, rfl⟩ := h
    rfl
  | branch span parts =>
    rw [SpanNode.Covers] at h
    exact h.2.2

end SpanNode.Covers

/-- The nodes among some parts cover some of the tokens, in order. -/
theorem CoverAll.children (h : CoverAll parts ts) :
    ∃ pieces, List.Forall₂ SpanNode.Covers (childrenOf parts) pieces ∧
      List.Sublist pieces.flatten ts := by
  induction parts generalizing ts with
  | nil => exact ⟨[], .nil, List.nil_sublist _⟩
  | cons part parts ih =>
    rw [CoverAll] at h
    obtain ⟨us, vs, rfl, hpart, hparts⟩ := h
    obtain ⟨pieces, hpieces, hsublist⟩ := ih hparts
    have hlater : List.Sublist pieces.flatten (us ++ vs) :=
      hsublist.trans (List.sublist_append_right us vs)
    cases part with
    | token kind => exact ⟨pieces, hpieces, hlater⟩
    | optional kinds => exact ⟨pieces, hpieces, hlater⟩
    | child node =>
      rw [SpanPart.Covers] at hpart
      exact ⟨us :: pieces, .cons hpart hpieces, (List.Sublist.refl us).append hsublist⟩

mutual

/-- Every node inside covers tokens that stand next to each other. -/
theorem covers_nodes {node : SpanNode} {ts : List Token} (h : node.Covers ts) :
    ∀ inner ∈ node.nodes, ∃ own, own <:+: ts ∧ inner.Covers own := by
  match node with
  | .leaf means span =>
    rw [SpanNode.nodes]
    exact List.forall_mem_singleton.mpr ⟨ts, List.infix_refl ts, h⟩
  | .branch span parts =>
    rw [SpanNode.nodes]
    refine List.forall_mem_cons.mpr ⟨⟨ts, List.infix_refl ts, h⟩, ?_⟩
    rw [SpanNode.Covers] at h
    exact covers_nodesOf h.1

theorem covers_nodesOf {parts : List SpanPart} {ts : List Token} (h : CoverAll parts ts) :
    ∀ inner ∈ nodesOf parts, ∃ own, own <:+: ts ∧ inner.Covers own := by
  match parts with
  | [] =>
    rw [nodesOf]
    exact List.forall_mem_nil _
  | part :: parts =>
    rw [CoverAll] at h
    obtain ⟨us, vs, rfl, hpart, hparts⟩ := h
    rw [nodesOf, List.forall_mem_append]
    refine ⟨?_, ?_⟩
    · intro inner hinner
      obtain ⟨own, hown, hcovers⟩ := covers_nodesOfPart hpart inner hinner
      exact ⟨own, hown.trans (List.prefix_append us vs).isInfix, hcovers⟩
    · intro inner hinner
      obtain ⟨own, hown, hcovers⟩ := covers_nodesOf hparts inner hinner
      exact ⟨own, hown.trans (List.suffix_append us vs).isInfix, hcovers⟩

theorem covers_nodesOfPart {part : SpanPart} {ts : List Token} (h : part.Covers ts) :
    ∀ inner ∈ part.nodes, ∃ own, own <:+: ts ∧ inner.Covers own := by
  match part with
  | .child node =>
    rw [SpanPart.Covers] at h
    rw [SpanPart.nodes]
    exact covers_nodes h
  | .token _ | .optional _ =>
    rw [SpanPart.nodes]
    exact List.forall_mem_nil _

end

/-! ## Spans nest -/

theorem hull_append_start {us vs : List Token} (hus : us ≠ []) :
    (hull (us ++ vs)).start = (hull us).start := by
  obtain ⟨t, ts, rfl⟩ := List.exists_cons_of_ne_nil hus
  rfl

theorem hull_append_end {us vs : List Token} (hvs : vs ≠ []) :
    (hull (us ++ vs)).end_ = (hull vs).end_ := by
  rw [hull, hull, List.getLast?_append, List.getLast?_eq_some_getLast hvs]
  rfl

theorem hull_append {us vs : List Token} (hus : us ≠ []) (hvs : vs ≠ []) :
    hull (us ++ vs) = ⟨(hull us).start, (hull vs).end_⟩ := by
  rw [← hull_append_start hus, ← hull_append_end hvs]

namespace Ordered

theorem sublist (h : Ordered ts) (hsublist : List.Sublist us ts) : Ordered us where
  pairwise := h.pairwise.sublist hsublist
  spans t ht := h.spans t (hsublist.subset ht)

/-- A token is inside the hull. -/
theorem inside (h : Ordered ts) (ht : t ∈ ts) :
    (hull ts).start ≤ t.span.start ∧ t.span.end_ ≤ (hull ts).end_ := by
  refine ⟨?_, ?_⟩
  · obtain ⟨first, rest, rfl⟩ := List.exists_cons_of_ne_nil (List.ne_nil_of_mem ht)
    change first.span.start ≤ t.span.start
    rcases List.mem_cons.mp ht with rfl | ht
    · exact Nat.le_refl _
    · exact (h.spans first List.mem_cons_self).trans (List.rel_of_pairwise_cons h.pairwise ht)
  · obtain ⟨rest, last, rfl⟩ := List.eq_nil_or_concat ts |>.resolve_left (List.ne_nil_of_mem ht)
    rw [List.concat_eq_append] at h ht ⊢
    rw [hull, List.getLast?_concat]
    change t.span.end_ ≤ last.span.end_
    rcases List.mem_append.mp ht with ht | ht
    · have hlast := (List.pairwise_append.mp h.pairwise).2.2 t ht last (List.mem_singleton_self _)
      exact hlast.trans (h.spans last (List.mem_append_right _ (List.mem_singleton_self _)))
    · rw [List.mem_singleton.mp ht]

theorem start_le_end (h : Ordered ts) (hne : ts ≠ []) : (hull ts).start ≤ (hull ts).end_ := by
  obtain ⟨t, ht⟩ := List.exists_mem_of_ne_nil ts hne
  exact (h.inside ht).1.trans ((h.spans t ht).trans (h.inside ht).2)

/-- The hull of some of the tokens is inside the hull of all. -/
theorem hull_inside (h : Ordered ts) (hsublist : List.Sublist us ts) (hne : us ≠ []) :
    (hull ts).start ≤ (hull us).start ∧ (hull us).end_ ≤ (hull ts).end_ := by
  obtain ⟨first, rest, rfl⟩ := List.exists_cons_of_ne_nil hne
  refine ⟨(h.inside (hsublist.subset List.mem_cons_self)).1, ?_⟩
  obtain ⟨t, ht⟩ : ∃ t, (first :: rest).getLast? = some t :=
    ⟨_, List.getLast?_eq_some_getLast hne⟩
  have hend : (hull (first :: rest)).end_ = t.span.end_ := by rw [hull, ht]; rfl
  rw [hend]
  exact (h.inside (hsublist.subset (List.mem_of_getLast? ht))).2

end Ordered

theorem covers_of_mem {nodes : List SpanNode} {pieces : List (List Token)}
    (h : List.Forall₂ SpanNode.Covers nodes pieces) {node : SpanNode} (hmem : node ∈ nodes) :
    ∃ own ∈ pieces, node.Covers own := by
  induction h with
  | nil => cases hmem
  | cons hnode _ ih =>
    rcases List.mem_cons.mp hmem with rfl | hmem
    · exact ⟨_, List.mem_cons_self, hnode⟩
    · obtain ⟨own, hown, hcovers⟩ := ih hmem
      exact ⟨own, List.mem_cons_of_mem _ hown, hcovers⟩

/-- Nodes that cover pieces of ordered tokens, one after the other. -/
theorem covers_pairwise {nodes : List SpanNode} {pieces : List (List Token)}
    (h : List.Forall₂ SpanNode.Covers nodes pieces) (hordered : Ordered pieces.flatten) :
    nodes.Pairwise fun a b => a.span.end_ ≤ b.span.start := by
  induction h with
  | nil => exact .nil
  | @cons node own nodes pieces hnode hnodes ih =>
    rw [List.flatten_cons] at hordered
    refine .cons (fun later hlater => ?_) (ih (hordered.sublist (List.sublist_append_right _ _)))
    -- every token of the first node ends before the tokens of the later ones
    obtain ⟨piece, hpiece, hcovers⟩ := covers_of_mem hnodes hlater
    rw [hnode.span_eq, hcovers.span_eq]
    have hbefore := (List.pairwise_append.mp hordered.pairwise).2.2
    have hlast := List.getLast?_eq_some_getLast hnode.ne_nil
    obtain ⟨first, rest, rfl⟩ := List.exists_cons_of_ne_nil hcovers.ne_nil
    rw [hull, hlast]
    exact hbefore _ (List.getLast_mem hnode.ne_nil) first
      (List.mem_flatten_of_mem hpiece List.mem_cons_self)

/-- A branch contains the nodes inside it. -/
theorem SpanNode.Covers.children_inside {node : SpanNode} (h : node.Covers ts)
    (hordered : Ordered ts) : ∀ child ∈ node.children,
      node.span.start ≤ child.span.start ∧ child.span.end_ ≤ node.span.end_ := by
  cases node with
  | leaf means span => exact List.forall_mem_nil _
  | branch span parts =>
    rw [h.span_eq]
    rw [SpanNode.Covers] at h
    obtain ⟨pieces, hpieces, hsublist⟩ := h.1.children
    intro child hchild
    obtain ⟨own, hown, hcovers⟩ := covers_of_mem hpieces hchild
    rw [hcovers.span_eq]
    exact hordered.hull_inside ((List.sublist_flatten_of_mem hown).trans hsublist) hcovers.ne_nil

/-- The nodes inside a branch follow each other. -/
theorem SpanNode.Covers.children_increasing {node : SpanNode} (h : node.Covers ts)
    (hordered : Ordered ts) :
    node.children.Pairwise fun a b => a.span.end_ ≤ b.span.start := by
  cases node with
  | leaf means span => exact .nil
  | branch span parts =>
    rw [SpanNode.Covers] at h
    obtain ⟨pieces, hpieces, hsublist⟩ := h.1.children
    exact covers_pairwise hpieces (hordered.sublist hsublist)

end Rettp
