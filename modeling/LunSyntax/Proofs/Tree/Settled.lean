import LunSyntax.Proofs.Grammar.Spans
import LunSyntax.Tree

/-!
# Nodes among comments

Comments are between the tokens of a source, so they are within a node of its syntax or apart from
it, in chars as in bytes.

* `SourceIndex.byte_eq`: the first byte of a char is the number of bytes of the chars before it, so
  that `SourceIndex.byte` keeps the order of chars;
* `Clear`: a node is apart from some ranges, or holds them and is no leaf;
* `SyntaxNode.Settled`: a node has its parts in order and is clear of all comments, down to the tag
  of a string and the operator that comes last;
* `parse_settled`: so it is for all nodes of a text.
-/

set_option autoImplicit false

namespace LunSyntax

/-! ## Bytes -/

/-- The number of bytes of some chars. -/
def bytesOf (cs : List Char) : Nat := (String.ofList cs).utf8ByteSize

@[simp]
theorem bytesOf_nil : bytesOf [] = 0 := by
  simp [bytesOf]

@[simp]
theorem bytesOf_cons (c : Char) (cs : List Char) :
    bytesOf (c :: cs) = c.utf8Size + bytesOf cs := by
  simp [bytesOf, String.ofList_cons]

theorem bytesOf_append (cs ds : List Char) : bytesOf (cs ++ ds) = bytesOf cs + bytesOf ds := by
  simp [bytesOf]

theorem bytesOf_pos {cs : List Char} (h : cs ≠ []) : 0 < bytesOf cs := by
  cases cs with
  | nil => exact absurd rfl h
  | cons c cs =>
    have := c.utf8Size_pos
    rw [bytesOf_cons]
    omega

namespace SourceIndex

theorem startsFrom_length (offset : Nat) (cs : List Char) :
    (startsFrom offset cs).length = cs.length + 1 := by
  induction cs generalizing offset with
  | nil => rfl
  | cons c cs ih => simp [startsFrom, ih]

theorem startsFrom_getElem? {cs : List Char} {i : Nat} (offset : Nat) (hi : i ≤ cs.length) :
    (startsFrom offset cs)[i]? = some (offset + bytesOf (cs.take i)) := by
  induction cs generalizing offset i with
  | nil =>
    obtain rfl : i = 0 := Nat.le_zero.1 hi
    simp [startsFrom]
  | cons c cs ih =>
    cases i with
    | zero => simp [startsFrom]
    | succ i =>
      rw [startsFrom, List.getElem?_cons_succ, ih _ (Nat.le_of_succ_le_succ hi), List.take_succ_cons,
        bytesOf_cons, Nat.add_assoc]

variable (source : String)

theorem charCount_eq : (ofSource source).charCount = source.length := by
  simp [charCount, ofSource, startsFrom_length, String.length_toList]

/-- The first byte of a char is the number of bytes before it. -/
theorem byte_eq (i : Nat) : (ofSource source).byte i = bytesOf (source.toList.take i) := by
  rcases Nat.lt_or_ge source.toList.length i with hi | hi
  · have hnone : (startsFrom 0 source.toList)[i]? = none :=
      List.getElem?_eq_none (by rw [startsFrom_length]; omega)
    rw [List.take_of_length_le (by omega)]
    simp [byte, ofSource, hnone, bytesOf]
  · simp [byte, ofSource, startsFrom_getElem? 0 hi]

theorem byte_zero : (ofSource source).byte 0 = 0 := by
  simp [byte_eq]

theorem byte_length : (ofSource source).byte source.length = source.utf8ByteSize := by
  rw [byte_eq, ← String.length_toList, List.take_length, bytesOf, String.ofList_toList]

theorem byte_mono {i j : Nat} (h : i ≤ j) : (ofSource source).byte i ≤ (ofSource source).byte j := by
  obtain ⟨n, rfl⟩ := Nat.exists_eq_add_of_le h
  rw [byte_eq, byte_eq, List.take_add, bytesOf_append]
  omega

theorem byte_lt {i j : Nat} (h : i < j) (hj : j ≤ source.length) :
    (ofSource source).byte i < (ofSource source).byte j := by
  obtain ⟨n, rfl⟩ := Nat.exists_eq_add_of_lt h
  rw [byte_eq, byte_eq, Nat.add_assoc, List.take_add, bytesOf_append]
  have hne : (source.toList.drop i).take (n + 1) ≠ [] := by
    rw [← String.length_toList] at hj
    intro hnil
    have := congrArg List.length hnil
    simp only [List.length_take, List.length_drop, List.length_nil] at this
    omega
  have := bytesOf_pos hne
  omega

theorem byte_le (i : Nat) : (ofSource source).byte i ≤ source.utf8ByteSize := by
  rcases Nat.le_total i source.length with hi | hi
  · rw [← byte_length]
    exact byte_mono source hi
  · refine Nat.le_of_eq ?_
    rw [byte_eq, List.take_of_length_le (by rwa [String.length_toList]), bytesOf,
      String.ofList_toList]

end SourceIndex

/-! ## Extents -/

namespace Extent

/-- An extent is within another one. -/
def Inside (e outer : Extent) : Prop := outer.start ≤ e.start ∧ e.stop ≤ outer.stop

/-- One of two extents stops before the other one starts. -/
def Apart (e e' : Extent) : Prop := e.stop ≤ e'.start ∨ e'.stop ≤ e.start

/-- An extent of chars as one of bytes. -/
def located (byte : Nat → Nat) (e : Extent) : Extent := ⟨byte e.start, byte e.stop⟩

theorem Apart.inside {e e' inner : Extent} (h : e.Apart e') (hin : inner.Inside e) :
    inner.Apart e' := by
  unfold Apart Inside at *
  omega

end Extent

/-- Where a span is in its source. -/
def Span.extent (s : Span) : Extent := ⟨s.start, s.stop⟩

/-- Where a node is in its source. -/
def SyntaxNode.extent (n : SyntaxNode) : Extent := n.span.extent

/-- A node of some kind is apart from each of some ranges, or it holds the range and is no leaf. -/
def Clear (ranges : List Extent) (kind : NodeKind) (e : Extent) : Prop :=
  ∀ r ∈ ranges, e.Apart r ∨ kind.isLeaf = false ∧ r.Inside e

/-! ## Nodes among comments -/

/-- A node of a source with some comments. -/
structure SyntaxNode.Settled (comments : List Extent) (n : SyntaxNode) : Prop where
  forward : n.span.start ≤ n.span.stop
  /-- the parts are within the node, one after the other -/
  within : ∀ part ∈ n.parts, n.span.start ≤ part.span.start ∧ part.span.stop ≤ n.span.stop
  inOrder : n.parts.Pairwise fun a b => a.span.stop ≤ b.span.start
  /-- a comment is in the node or apart from it -/
  clear : ∀ c ∈ comments, n.extent.Apart c ∨ c.Inside n.extent
  token : n.token?.isSome → ∀ c ∈ comments, n.extent.Apart c
  /-- the operator after all parts has two chars -/
  closer : n.closer?.isSome → (∀ part ∈ n.parts, part.span.stop ≤ n.span.stop - 2) ∧
    ∀ c ∈ comments, Extent.Apart ⟨n.span.stop - 2, n.span.stop⟩ c
  /-- the parts of a string are after its tag -/
  strings : ∀ lit ∈ n.string?, InOrder n.span.stop (n.span.start + (lit.tag.getD "").length)
    (lit.parts.map StringPart.extent)

theorem SyntaxNode.Settled.clear_kind {comments : List Extent} {n : SyntaxNode} {kind : NodeKind}
    (h : n.Settled comments) (hkind : kind.isLeaf = false) : Clear comments kind n.extent :=
  fun c hc => (h.clear c hc).imp_right fun hin => ⟨hkind, hin⟩

namespace SyntaxNode.Placed

variable {source : UInt16} {n : SyntaxNode} {used : List Lexeme}

/-- Where the tokens of a node stand in order, both ends of the node touch a token. -/
theorem edges {lo hi : Nat} (h : n.Placed source used) (hr : Ranged lo hi used) :
    (∃ t ∈ used, t.span.start ≤ n.span.start ∧ n.span.start ≤ t.span.stop) ∧
      ∃ t ∈ used, t.span.start ≤ n.span.stop ∧ n.span.stop ≤ t.span.stop := by
  have hcovered : ∀ {span : Span}, Covers source used span →
      (∃ t ∈ used, t.span.start ≤ span.start ∧ span.start ≤ t.span.stop) ∧
        ∃ t ∈ used, t.span.start ≤ span.stop ∧ span.stop ≤ t.span.stop := by
    intro span hcovers
    obtain ⟨t, ht, hstart⟩ := hcovers.start_mem
    obtain ⟨t', ht', hstop⟩ := hcovers.stop_mem
    have := hr.bounds ht
    have := hr.bounds ht'
    exact ⟨⟨t, ht, by omega, by omega⟩, ⟨t', ht', by omega, by omega⟩⟩
  cases h with
  | spelled h =>
    cases h with
    | whole hcovers _ _ _ => exact hcovered hcovers
    | closed hcovers _ _ _ => exact hcovered hcovers
    | doubleBorrow _ hcovers _ => exact hcovered hcovers
    | @skipped opening closing us full hcovers =>
      obtain ⟨-, hstart, hstop, -⟩ := hcovers.inner_eq hr
      have hopening := hr.bounds (t := opening) (by simp)
      have hclosing := hr.bounds (t := closing) (by simp)
      refine ⟨⟨opening, by simp, ?_⟩, ⟨closing, by simp, ?_⟩⟩
      · simp only [SyntaxNode.span]
        omega
      · simp only [SyntaxNode.span]
        omega
  | @inner mutSpan operand full t us _ hcovers _ =>
    have ht := hr.bounds (t := t) (by simp)
    refine ⟨⟨t, by simp, ?_⟩, (hcovered hcovers).2⟩
    simp only [SyntaxNode.span]
    omega

/-- The token after all parts of a node is its last one. -/
theorem closer {kind : TokenKind} (h : n.Placed source used) (hk : n.closer? = some kind) :
    ∃ us t, used = us ++ [t] ∧ t.node = kind ∧ Covers source used n.span ∧
      InTurn (SyntaxNode.Placed source) n.parts us := by
  cases h with
  | spelled h =>
    cases h with
    | whole _ _ hnone _ =>
      rw [hnone] at hk
      cases hk
    | @closed _ us t hcovers _ hcloser hparts =>
      rw [hcloser] at hk
      cases hk
      exact ⟨us, t, rfl, rfl, hcovers, hparts.mono fun _ _ hn => .spelled hn⟩
    | doubleBorrow _ _ _ => cases hk
    | skipped _ => cases hk
  | inner _ _ _ => cases hk

end SyntaxNode.Placed

theorem SyntaxNode.closer?_eq {n : SyntaxNode} (h : n.closer?.isSome) :
    n.closer? = some (.digraph .deref) := by
  obtain ⟨kind, hk⟩ := Option.isSome_iff_exists.1 h
  cases n with
  | expr e =>
    obtain ⟨form, span⟩ := e
    cases form with
    | deref operand => rfl
    | _ => cases hk
  | _ => cases hk

section

variable {text : String} {id : UInt16}

/-- Comments are apart from all other tokens. -/
theorem token_apart {t : Token} {c : Extent} (ht : t ∈ (lex text id).1)
    (hcomment : t.kind.isComment = false) (hc : c ∈ Tree.commentExtents (lex text id).1) :
    t.extent.Apart c := by
  obtain ⟨comment, hmem, rfl⟩ := List.mem_map.1 hc
  obtain ⟨hmem, hkind⟩ := List.mem_filter.1 hmem
  have hpairs := List.pairwise_map.1 (scan_tokens 0 text.toList).pairwise
  rcases mem_or_of_pairwise hpairs ht hmem with rfl | hlt | hgt
  · rw [hcomment] at hkind
    cases hkind
  · exact .inl hlt
  · exact .inr hgt

/-- The token of a node is one of the text, apart from all comments. -/
theorem token_of_stream {t : Lexeme} (ht : t ∈ (tokenStream (lex text id).1 id).rest) :
    ∃ token ∈ (lex text id).1, token.kind = t.node ∧ token.extent = t.span.extent ∧
      ∀ c ∈ Tree.commentExtents (lex text id).1, t.span.extent.Apart c := by
  obtain ⟨token, hmem, hcomment, rfl⟩ := mem_stream ht
  exact ⟨token, hmem, rfl, rfl, fun c hc => token_apart hmem hcomment hc⟩

/-- The operator that comes last is written with two chars. -/
theorem deref_length {t : Lexeme} (ht : t ∈ (tokenStream (lex text id).1 id).rest)
    (hkind : t.node = .digraph .deref) : t.span.stop = t.span.start + 2 := by
  obtain ⟨token, hmem, hnode, hextent, -⟩ := token_of_stream ht
  have hbounds := (stream_ranged text id).bounds ht
  have hlexeme := congrArg List.length (lex_written text id token hmem).lexeme
  rw [hnode, hkind, hextent] at hlexeme
  simp only [charsIn, Span.extent, List.length_take, List.length_drop,
    String.length_toList] at hlexeme
  have htwo : (TokenKind.lexeme (.digraph .deref)).length = 2 := rfl
  rw [htwo] at hlexeme
  omega

/-- **A node that is spelled with tokens of a text is clear of its comments.** -/
theorem SyntaxNode.Placed.settled {n : SyntaxNode} {used : List Lexeme} (h : n.Placed id used)
    (hused : used <:+: (tokenStream (lex text id).1 id).rest) :
    n.Settled (Tree.commentExtents (lex text id).1) := by
  have hranged : Ranged 0 text.length used := (stream_ranged text id).sublist hused.sublist
  have hfaithful := h.faithful hused
  refine ⟨hfaithful.bounds.1, hfaithful.within, hfaithful.inOrder, fun c hc => ?_, ?_, ?_, ?_⟩
  · -- both ends touch tokens, which are on one side of the comment each
    obtain ⟨⟨t, ht, hstart⟩, ⟨t', ht', hstop⟩⟩ := h.edges hranged
    obtain ⟨-, -, -, -, hapart⟩ := token_of_stream (hused.subset ht)
    obtain ⟨-, -, -, -, hapart'⟩ := token_of_stream (hused.subset ht')
    have hforward := hfaithful.bounds.1
    have h1 := hapart c hc
    have h2 := hapart' c hc
    simp only [Extent.Apart, Extent.Inside, SyntaxNode.extent, Span.extent] at h1 h2 ⊢
    omega
  · intro hsome c hc
    obtain ⟨kind, hk⟩ := Option.isSome_iff_exists.1 hsome
    obtain ⟨t, rfl, -, hspan⟩ := h.token_eq hk
    obtain ⟨-, -, -, -, hapart⟩ := token_of_stream (hused.subset (List.mem_singleton.2 rfl))
    rw [SyntaxNode.extent, hspan]
    exact hapart c hc
  · intro hsome
    obtain ⟨us, t, rfl, hkind, hcovers, hparts⟩ := h.closer (closer?_eq hsome)
    have ht : t ∈ (tokenStream (lex text id).1 id).rest := hused.subset (by simp)
    have hstop := hcovers.stop_eq hranged
    have hlength := deref_length ht hkind
    refine ⟨fun part hpart => ?_, fun c hc => ?_⟩
    · obtain ⟨mid, hus, hlast⟩ := hranged.split
      have hle := (hparts.inOrder hus).1 part hpart
      have hmid := hlast.bounds (t := t) (by simp)
      omega
    · obtain ⟨-, -, -, -, hapart⟩ := token_of_stream ht
      have hrange : Extent.mk (n.span.stop - 2) n.span.stop = t.span.extent := by
        rw [hstop, Span.extent, hlength, Nat.add_sub_cancel]
      rw [hrange]
      exact hapart c hc
  · intro lit hlit
    obtain ⟨t, rfl, hkind, hspan⟩ := h.token_eq (SyntaxNode.token?_of_string? hlit)
    obtain ⟨token, hmem, hnode, hextent, -⟩ :=
      token_of_stream (hused.subset (List.mem_singleton.2 rfl))
    obtain ⟨middle, htile, hstop⟩ := (lex_written text id token hmem).parts lit
      (hnode.trans hkind)
    rw [hextent] at htile hstop
    simp only [Span.extent, String.length_toList] at htile hstop
    rw [hspan]
    dsimp only
    rw [hstop]
    exact (htile.inOrder.from_lower (by omega)).to_upper (by omega)

/-- All nodes of a file are clear of the comments of its text. -/
theorem parse_settled (text : String) (id : UInt16) :
    ∃ file, (parse text id).file = some file ∧ file.span = ⟨id, 0, text.length⟩ ∧
      ∀ n : SyntaxNode, n.Within (.file file) →
        n.Settled (Tree.commentExtents (parse text id).tokens) := by
  obtain ⟨items, -, hfile, -, hitems, -⟩ := parse_spells text id
  have hplaced : InTurn (SyntaxNode.Placed id) (items.map .item)
      (tokenStream (lex text id).1 id).rest :=
    hitems.mono fun _ _ h => .spelled h.spelled
  refine ⟨_, hfile, rfl, fun n hn => ?_⟩
  cases hn with
  | refl =>
    obtain ⟨hwithin, hpairs⟩ := hplaced.inOrder (stream_ranged text id)
    refine ⟨Nat.zero_le _, hwithin, hpairs, fun c hc => .inr ⟨Nat.zero_le _, ?_⟩, nofun, nofun,
      by simp [SyntaxNode.string?]⟩
    obtain ⟨comment, hmem, rfl⟩ := List.mem_map.1 hc
    have hbounds := (scan_tokens 0 text.toList).bounds
      (List.mem_map_of_mem (List.mem_filter.1 hmem).1)
    rw [Nat.zero_add, String.length_toList] at hbounds
    exact hbounds.2.2
  | part hpart hn =>
    obtain ⟨us, hus, hitem⟩ := hplaced.mem hpart
    obtain ⟨vs, hvs, hnode⟩ := hitem.within hn
    exact hnode.settled (hvs.trans hus)

end

end LunSyntax
