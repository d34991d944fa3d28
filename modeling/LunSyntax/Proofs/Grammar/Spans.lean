import LunSyntax.Proofs.Grammar.Provenance
import LunSyntax.Proofs.Token.Lexemes

/-!
# Spans and sources

The spans of a file lead back to the source it was parsed from, whatever had to be given up.

* `SyntaxNode.Faithful`: the span of a node is one of the source, it has the text of the node and
  the spans of its parts in order, and whole parts start and stop with tokens;
* `SyntaxNode.Placed.faithful`: so it is for nodes which are spelled with tokens of the source;
* `parse_faithful`: hence for all nodes of a file.
-/

set_option autoImplicit false

namespace LunSyntax

/-! ## Faithful spans -/

/-- The chars under a span. -/
def charsUnder (chars : List Char) (span : Span) : List Char :=
  charsIn chars ⟨span.start, span.stop⟩

/-- A span from the start of a token to the stop of one; comments are no such tokens. -/
structure Aligned (tokens : List Token) (span : Span) : Prop where
  start_mem : ∃ t ∈ tokens, t.kind.isComment = false ∧ span.start = t.extent.start
  stop_mem : ∃ t ∈ tokens, t.kind.isComment = false ∧ span.stop = t.extent.stop

namespace SyntaxNode

/-- What is written for a name, a literal, an operator, a builtin type or a word. -/
def text? : SyntaxNode → Option String
  | name n => some n.name
  | primitive type => some type.node.text
  | binOp op => some op.node.text
  | unOp op => some op.node.text
  | .word text _ => some text
  | expr ⟨.literal lit, _⟩ => some lit.text
  | _ => none

/-- A string literal. -/
def string? : SyntaxNode → Option StringLit
  | expr ⟨.literal (.string lit), _⟩ => some lit
  | _ => none

/-- Items, and expressions which were not given up. -/
def IsWhole : SyntaxNode → Prop
  | item _ => True
  | expr e => e.kind ≠ .error
  | _ => False

/-- The inner one of two borrows, which starts at the second char of their token `&&`. -/
def IsInnerBorrow (tokens : List Token) (outer part : SyntaxNode) : Prop :=
  ∃ mutSpan operand span,
    outer = .expr ⟨.borrow none ⟨.borrow mutSpan operand, { span with start := span.start + 1 }⟩,
      span⟩ ∧
    part = .expr ⟨.borrow mutSpan operand, { span with start := span.start + 1 }⟩ ∧
    Aligned tokens span ∧ ∃ t ∈ tokens, t.kind = .digraph .and ∧ t.extent.start = span.start

/-- What the span of a node says about the source with some tokens. -/
structure Faithful (chars : List Char) (id : UInt16) (tokens : List Token) (n : SyntaxNode) :
    Prop where
  /-- the span is one of the source -/
  source_eq : n.span.source = id
  bounds : n.span.start ≤ n.span.stop ∧ n.span.stop ≤ chars.length
  /-- what is written for the node is what stands there -/
  text : ∀ text ∈ n.text?, charsUnder chars n.span = text.toList
  /-- the parts are within the node, in order and disjoint -/
  within : ∀ part ∈ n.parts, n.span.start ≤ part.span.start ∧ part.span.stop ≤ n.span.stop
  inOrder : n.parts.Pairwise fun a b => a.span.stop ≤ b.span.start
  /-- parts start and stop with tokens, but for errors and the inner one of two borrows -/
  aligned : ∀ part ∈ n.parts, part.IsWhole →
    Aligned tokens part.span ∨ n.IsInnerBorrow tokens part
  /-- the parts of a string are between its quotes, in order, and each is what stands there -/
  strings : ∀ lit ∈ n.string?,
    InOrder (n.span.stop - 1) (n.span.start + 1) (lit.parts.map StringPart.extent) ∧
      ∀ part ∈ lit.parts, charsIn chars part.extent = part.text.toList

/-! ## Tokens of nodes -/

variable {source : UInt16} {n part : SyntaxNode} {used : List Lexeme}

theorem Spelled.source_eq (h : n.Spelled source used) : n.span.source = source := by
  cases h with
  | whole hcovers _ _ _ => exact hcovers.source_eq
  | closed hcovers _ _ _ => exact hcovers.source_eq
  | doubleBorrow _ hcovers _ => exact hcovers.source_eq
  | @skipped _ _ _ full hcovers =>
    have hinner : full.inner.source = full.source := by
      unfold Span.inner
      split
      · rfl
      · rfl
    exact hinner.trans hcovers.source_eq

theorem Placed.source_eq (h : n.Placed source used) : n.span.source = source := by
  cases h with
  | spelled h => exact h.source_eq
  | inner _ hcovers _ => exact hcovers.source_eq

/-- A node which is just one token has its span. -/
theorem Placed.token_eq {kind : TokenKind} (h : n.Placed source used) (hk : n.token? = some kind) :
    ∃ t, used = [t] ∧ t.node = kind ∧ n.span = ⟨source, t.span.start, t.span.stop⟩ := by
  cases h with
  | spelled h =>
    cases h with
    | whole hcovers htoken _ _ =>
      obtain ⟨t, rfl, ht⟩ := htoken kind hk
      obtain ⟨t₁, h₁, hstart⟩ := hcovers.start_mem
      obtain ⟨t₂, h₂, hstop⟩ := hcovers.stop_mem
      cases List.mem_singleton.1 h₁
      cases List.mem_singleton.1 h₂
      refine ⟨t, rfl, ht, ?_⟩
      rw [← hcovers.source_eq, ← hstart, ← hstop]
    | closed _ hnone _ _ =>
      rw [hnone] at hk
      cases hk
    | doubleBorrow _ _ _ => cases hk
    | skipped _ => cases hk
  | inner _ _ _ => cases hk

/-- An item, or an expression which was not given up, has a span over its tokens. -/
theorem Spelled.covers (h : n.Spelled source used) (hn : n.IsWhole) :
    Covers source used n.span := by
  cases h with
  | whole hcovers _ _ _ => exact hcovers
  | closed hcovers _ _ _ => exact hcovers
  | doubleBorrow _ hcovers _ => exact hcovers
  | skipped _ => exact absurd rfl hn

/-- A part of a node is spelled with tokens, or the node has two borrows. -/
theorem Placed.part_spelled (h : n.Placed source used) (hpart : part ∈ n.parts) :
    (∃ us, us <:+: used ∧ part.Spelled source us) ∨
      ∃ mutSpan operand full t us, used = t :: us ∧ t.node = .digraph .and ∧
        Covers source (t :: us) full ∧
        n = .expr ⟨.borrow none ⟨.borrow mutSpan operand,
          { full with start := t.span.start + 1 }⟩, full⟩ ∧
        part = .expr ⟨.borrow mutSpan operand, { full with start := t.span.start + 1 }⟩ := by
  cases h with
  | spelled h =>
    cases h with
    | whole _ _ _ hparts => exact .inl (hparts.mem hpart)
    | @closed _ us t _ _ _ hparts =>
      obtain ⟨vs, hvs, hspelled⟩ := hparts.mem hpart
      exact .inl ⟨vs, hvs.trans (List.prefix_append _ _).isInfix, hspelled⟩
    | @doubleBorrow mutSpan operand full t us ht hcovers _ =>
      have hpart : part =
          .expr ⟨.borrow mutSpan operand, { full with start := t.span.start + 1 }⟩ := by
        simpa [SyntaxNode.parts, ExprKind.parts] using hpart
      exact .inr ⟨mutSpan, operand, full, t, us, rfl, ht, hcovers, rfl, hpart⟩
    | skipped _ => cases hpart
  | @inner mutSpan operand full t us _ _ hparts =>
    obtain ⟨vs, hvs, hspelled⟩ := hparts.mem hpart
    exact .inl ⟨vs, hvs.trans (List.suffix_cons _ _).isInfix, hspelled⟩

theorem token?_of_text? {text : String} (h : n.text? = some text) :
    ∃ kind, n.token? = some kind ∧ kind.lexeme = text := by
  cases n with
  | name name =>
    cases h
    exact ⟨_, rfl, rfl⟩
  | primitive type =>
    cases h
    exact ⟨_, rfl, rfl⟩
  | binOp op =>
    cases h
    refine ⟨_, rfl, ?_⟩
    obtain ⟨op, span⟩ := op
    cases op <;> rfl
  | unOp op =>
    cases h
    refine ⟨_, rfl, ?_⟩
    obtain ⟨op, span⟩ := op
    cases op <;> rfl
  | word text span =>
    cases h
    exact ⟨_, rfl, rfl⟩
  | expr e =>
    obtain ⟨kind, span⟩ := e
    cases kind with
    | literal lit =>
      cases h
      exact ⟨_, rfl, rfl⟩
    | _ => cases h
  | _ => cases h

theorem token?_of_string? {lit : StringLit} (h : n.string? = some lit) :
    n.token? = some (.literal (.string lit)) := by
  unfold string? at h
  split at h
  · cases h
    rfl
  · cases h

end SyntaxNode

/-! ## The tokens of a source -/

/-- Between the quotes of a string token are its parts. -/
theorem Token.Written.string {chars : List Char} {t : Token} {lit : StringLit}
    (h : t.Written chars) (hk : t.kind = .literal (.string lit)) :
    InOrder (t.extent.stop - 1) (t.extent.start + 1) (lit.parts.map StringPart.extent) ∧
      ∀ part ∈ lit.parts, charsIn chars part.extent = part.text.toList := by
  obtain ⟨middle, htile, hstop⟩ := h.parts lit hk
  have hlexeme := h.lexeme
  rw [hk] at hlexeme
  have htext : (TokenKind.lexeme (.literal (.string lit))).toList =
      ((lit.tag.getD "").toList ++ ['"']) ++ (middle ++ ['"']) := by
    simp [TokenKind.lexeme, Literal.text, StringLit.text, htile.text]
  have hsplit := List.take_append_drop (t.extent.stop - t.extent.start)
    (chars.drop t.extent.start)
  rw [← charsIn, hlexeme, htext] at hsplit
  generalize (chars.drop t.extent.start).drop (t.extent.stop - t.extent.start) = rest at hsplit
  have hdrop : chars.drop (t.extent.start + (lit.tag.getD "").toList.length + 1) =
      middle ++ (['"'] ++ rest) := by
    rw [Nat.add_assoc, ← List.drop_drop, ← hsplit]
    simp
  refine ⟨?_, htile.charsIn hdrop⟩
  refine InOrder.to_upper (htile.inOrder.from_lower ?_) ?_
  · omega
  · omega

/-- The tokens of a source which mean something to the grammar stand in order. -/
theorem stream_ranged (source : String) (id : UInt16) :
    Ranged 0 source.length (tokenStream (lex source id).1 id).rest := by
  have htokens := scan_tokens 0 source.toList
  rw [Nat.zero_add, String.length_toList] at htokens
  have hextents : extents (tokenStream (lex source id).1 id).rest =
      ((lex source id).1.filter fun t => !t.kind.isComment).map Token.extent := by
    simp [extents, tokenStream, Cursor.start, Function.comp_def, Extent.inSource]
  unfold Ranged
  rw [hextents]
  exact htokens.sublist (List.filter_sublist.map _)

theorem mem_stream {tokens : List Token} {id : UInt16} {t : Lexeme}
    (h : t ∈ (tokenStream tokens id).rest) :
    ∃ token ∈ tokens, token.kind.isComment = false ∧
      t = ⟨token.kind, token.extent.inSource id⟩ := by
  obtain ⟨token, htoken, rfl⟩ := List.mem_map.1 h
  obtain ⟨hmem, hcomment⟩ := List.mem_filter.1 htoken
  exact ⟨token, hmem, by simpa using hcomment, rfl⟩

theorem Covers.aligned {tokens : List Token} {id : UInt16} {used : List Lexeme} {span : Span}
    (h : Covers id used span) (hused : used <:+: (tokenStream tokens id).rest) :
    Aligned tokens span := by
  obtain ⟨t, ht, hstart⟩ := h.start_mem
  obtain ⟨t', ht', hstop⟩ := h.stop_mem
  obtain ⟨token, hmem, hcomment, rfl⟩ := mem_stream (hused.subset ht)
  obtain ⟨token', hmem', hcomment', rfl⟩ := mem_stream (hused.subset ht')
  exact ⟨⟨token, hmem, hcomment, hstart⟩, ⟨token', hmem', hcomment', hstop⟩⟩

/-! ## Files -/

/-- **A node that is spelled with tokens of a source has a faithful span.** -/
theorem SyntaxNode.Placed.faithful {text : String} {id : UInt16} {n : SyntaxNode}
    {used : List Lexeme} (h : n.Placed id used)
    (hused : used <:+: (tokenStream (lex text id).1 id).rest) :
    n.Faithful text.toList id (lex text id).1 := by
  have hranged : Ranged 0 text.length used := (stream_ranged text id).sublist hused.sublist
  have hbounds := h.bounds hranged
  obtain ⟨hwithin, hpairs⟩ := h.parts_inOrder hranged
  -- a node of one token has the extent of a token of the source
  have hone : ∀ kind, n.token? = some kind → ∃ t ∈ (lex text id).1, t.kind = kind ∧
      t.extent = ⟨n.span.start, n.span.stop⟩ := by
    intro kind hk
    obtain ⟨t, rfl, rfl, hspan⟩ := h.token_eq hk
    obtain ⟨token, hmem, -, rfl⟩ := mem_stream (hused.subset (List.mem_singleton.2 rfl))
    exact ⟨token, hmem, rfl, by rw [hspan]; rfl⟩
  refine ⟨h.source_eq, ⟨hbounds.2.1, ?_⟩, ?_, hwithin, hpairs, ?_, ?_⟩
  · rw [String.length_toList]
    exact hbounds.2.2
  · intro written hwritten
    obtain ⟨kind, hk, rfl⟩ := token?_of_text? hwritten
    obtain ⟨t, hmem, rfl, hextent⟩ := hone kind hk
    rw [charsUnder, ← hextent]
    exact (lex_written text id t hmem).lexeme
  · intro part hpart hwhole
    rcases h.part_spelled hpart with ⟨us, hus, hspelled⟩ |
      ⟨mutSpan, operand, full, t, us, rfl, ht, hcovers, rfl, rfl⟩
    · exact .inl ((hspelled.covers hwhole).aligned (hus.trans hused))
    · have hstart := hcovers.start_eq hranged
      obtain ⟨token, hmem, -, rfl⟩ := mem_stream (hused.subset (List.mem_cons_self ..))
      refine .inr ⟨mutSpan, operand, full, ?_, ?_, hcovers.aligned hused, token, hmem, ht,
        hstart.symm⟩
      · rw [hstart]
      · rw [hstart]
  · intro lit hlit
    obtain ⟨t, hmem, hkind, hextent⟩ := hone _ (token?_of_string? hlit)
    have hstring := (lex_written text id t hmem).string hkind
    rw [hextent] at hstring
    exact hstring

/-- **Spans are faithful.**  A file is parsed from any text, and the span of any node in it, below
errors too, is a range of the text: it has what is written for the node, the parts of the node are
in order there, and items and expressions start and stop with tokens, but for errors and the inner
one of the two borrows of `&&`. -/
theorem parse_faithful (source : String) (id : UInt16) :
    ∃ file, (parse source id).file = some file ∧
      ∀ n : SyntaxNode, n.Within (.file file) →
        n.Faithful source.toList id (parse source id).tokens := by
  obtain ⟨items, -, hfile, -, hitems, -⟩ := parse_spells source id
  refine ⟨_, hfile, fun n hn => ?_⟩
  have hplaced : InTurn (SyntaxNode.Placed id) (items.map .item)
      (tokenStream (lex source id).1 id).rest :=
    hitems.mono fun _ _ h => .spelled h.spelled
  cases hn with
  | refl =>
    obtain ⟨hwithin, hpairs⟩ := hplaced.inOrder (stream_ranged source id)
    refine ⟨rfl, ⟨Nat.zero_le _, ?_⟩, by simp [SyntaxNode.text?], hwithin, hpairs, ?_,
      by simp [SyntaxNode.string?]⟩
    · rw [String.length_toList]
      exact Nat.le_refl _
    · intro part hpart _
      obtain ⟨us, hus, hwhole⟩ := hitems.mem hpart
      exact .inl (hwhole.covers.aligned hus)
  | part hpart hn =>
    obtain ⟨us, hus, hitem⟩ := hplaced.mem hpart
    obtain ⟨vs, hvs, hnode⟩ := hitem.within hn
    exact hnode.faithful (hvs.trans hus)

end LunSyntax
