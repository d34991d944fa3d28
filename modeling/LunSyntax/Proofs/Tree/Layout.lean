import Mathlib.Data.List.Forall2
import Mathlib.Order.Monotone.Basic
import LunSyntax.Proofs.Tree.Settled
import LunSyntax.Proofs.Tree.Structure

/-!
# Trees lie in their sources

The tree of a syntax has the order of its source: the children of a node are within it and one
after the other, and all nodes are clear of comments.

* `Shape.Fits`: all nodes of a shape satisfy a condition and have their children in order;
* `Shape.Renders`: a shape has the extent of a node of the syntax, and fits where that is settled;
  there is one lemma for each way a shape is made of others;
* `Expr.shape_renders` and the like: each form of syntax is rendered by its shape;
* `sourceShape_fits`: hence the tree of a text fits among its comments.
-/

set_option autoImplicit false

namespace LunSyntax

open List (Forall₂)

/-! ## Shapes in order -/

/-- All nodes of a shape satisfy a condition on their kinds and extents, and have their children
within, one after the other.  Leaves have none. -/
inductive Shape.Fits (P : NodeKind → Extent → Prop) : Shape → Prop
  | node {kind : NodeKind} {field : Option Field} {extent : Extent} {children : List Shape} :
    P kind extent → extent.start ≤ extent.stop → (children ≠ [] → kind.isLeaf = false) →
      (∀ s ∈ children, s.extent.Inside extent) →
      (children.Pairwise fun a b => a.extent.stop ≤ b.extent.start) →
      (∀ s ∈ children, Shape.Fits P s) → Shape.Fits P (.node kind field extent children)

/-- A shape fits among comments. -/
def Shape.FitsAmong (byte : Nat → Nat) (comments : List Extent) (s : Shape) : Prop :=
  s.Fits (Clear (comments.map (Extent.located byte)))

/-- All that is within a node is settled. -/
def SyntaxNode.Settles (comments : List Extent) (n : SyntaxNode) : Prop :=
  ∀ m : SyntaxNode, m.Within n → m.Settled comments

theorem SyntaxNode.Settles.self {comments : List Extent} {n : SyntaxNode}
    (h : n.Settles comments) : n.Settled comments :=
  h n .refl

theorem SyntaxNode.Settles.part {comments : List Extent} {n part : SyntaxNode}
    (h : n.Settles comments) (hpart : part ∈ n.parts) : part.Settles comments :=
  fun m hm => h m (.part hpart hm)

/-- A shape has the extent of a node, and fits where the node is settled. -/
structure Shape.Renders (byte : Nat → Nat) (comments : List Extent) (s : Shape)
    (n : SyntaxNode) : Prop where
  extent_eq : s.extent = n.extent.located byte
  fits : Monotone byte → n.Settles comments → s.FitsAmong byte comments

section

variable {byte : Nat → Nat} {comments : List Extent}

theorem Clear.located {kind : NodeKind} {e : Extent} (hbyte : Monotone byte)
    (h : Clear comments kind e) :
    Clear (comments.map (Extent.located byte)) kind (e.located byte) := by
  intro r hr
  obtain ⟨c, hc, rfl⟩ := List.mem_map.1 hr
  rcases h c hc with (hbefore | hafter) | ⟨hleaf, hstart, hstop⟩
  · exact .inl (.inl (hbyte hbefore))
  · exact .inl (.inr (hbyte hafter))
  · exact .inr ⟨hleaf, hbyte hstart, hbyte hstop⟩

namespace Shape

variable {kind : NodeKind} {field : Option Field} {start stop : Nat} {children : List Shape}

/-- A node fits if its children do, and their extents of chars are in order. -/
theorem covering_fits (hbyte : Monotone byte) (es : List Extent) (hle : start ≤ stop)
    (hholds : children ≠ [] → kind.isLeaf = false)
    (hclear : Clear comments kind ⟨start, stop⟩)
    (hes : children.map Shape.extent = es.map (Extent.located byte))
    (hinside : ∀ e ∈ es, e.Inside ⟨start, stop⟩)
    (hpairs : es.Pairwise fun a b => a.stop ≤ b.start)
    (hfits : ∀ s ∈ children, s.FitsAmong byte comments) :
    (covering byte kind field start stop children).FitsAmong byte comments := by
  refine .node (hclear.located hbyte) (hbyte hle) hholds ?_ ?_ hfits
  · intro s hs
    have hmem : s.extent ∈ es.map (Extent.located byte) := by
      rw [← hes]
      exact List.mem_map_of_mem hs
    obtain ⟨e, he, heq⟩ := List.mem_map.1 hmem
    rw [← heq]
    exact ⟨hbyte (hinside e he).1, hbyte (hinside e he).2⟩
  · have hlocated : (children.map Shape.extent).Pairwise fun a b => a.stop ≤ b.start := by
      rw [hes]
      exact List.pairwise_map.2 (hpairs.imp fun h => hbyte h)
    exact List.pairwise_map.1 hlocated

theorem leaf_fits (hbyte : Monotone byte) (hle : start ≤ stop)
    (hapart : ∀ c ∈ comments, Extent.Apart ⟨start, stop⟩ c) :
    (covering byte kind field start stop []).FitsAmong byte comments :=
  covering_fits hbyte [] hle (by simp) (fun c hc => .inl (hapart c hc)) rfl nofun .nil nofun

end Shape

namespace Shape.Renders

variable {n : SyntaxNode} {kind : NodeKind} {field : Option Field} {children : List Shape}

/-- A token is a leaf. -/
theorem token (hn : n.token?.isSome) :
    Renders byte comments (ofSpan byte kind field n.span []) n :=
  ⟨rfl, fun hbyte h => leaf_fits hbyte h.self.forward (h.self.token hn)⟩

/-- A node which holds others has shapes for some of its parts. -/
theorem some_parts (hkind : kind.isLeaf = false) {ns : List SyntaxNode} (hns : ns.Sublist n.parts)
    (hchildren : Forall₂ (Renders byte comments) children ns) :
    Renders byte comments (ofSpan byte kind field n.span children) n := by
  refine ⟨rfl, fun hbyte h => ?_⟩
  have hextents : children.map Shape.extent =
      (ns.map SyntaxNode.extent).map (Extent.located byte) := by
    clear hns
    induction hchildren with
    | nil => rfl
    | cons hs _ ih => rw [List.map_cons, List.map_cons, List.map_cons, ih, hs.extent_eq]
  have hfits : ∀ s ∈ children, s.FitsAmong byte comments := by
    have hsettles : ∀ m ∈ ns, m.Settles comments := fun m hm => h.part (hns.subset hm)
    clear hns hextents
    induction hchildren with
    | nil => exact nofun
    | cons hs _ ih =>
      obtain ⟨hm, hms⟩ := List.forall_mem_cons.1 hsettles
      exact List.forall_mem_cons.2 ⟨hs.fits hbyte hm, ih hms⟩
  refine covering_fits hbyte (ns.map SyntaxNode.extent) h.self.forward (fun _ => hkind)
    (h.self.clear_kind hkind) hextents ?_ ?_ hfits
  · intro e he
    obtain ⟨m, hm, rfl⟩ := List.mem_map.1 he
    exact h.self.within m (hns.subset hm)
  · exact List.pairwise_map.2 (h.self.inOrder.sublist hns)

/-- A node which holds others has shapes for all of its parts. -/
theorem all_parts (hkind : kind.isLeaf = false)
    (hchildren : Forall₂ (Renders byte comments) children n.parts) :
    Renders byte comments (ofSpan byte kind field n.span children) n :=
  some_parts hkind (List.Sublist.refl _) hchildren

/-- A node may be within another one of the same extent. -/
theorem wrap {inner : Shape} (hkind : kind.isLeaf = false) (h : Renders byte comments inner n) :
    Renders byte comments (ofSpan byte kind field n.span [inner]) n := by
  refine ⟨rfl, fun hbyte hn => ?_⟩
  refine covering_fits hbyte [n.extent] hn.self.forward (fun _ => hkind)
    (hn.self.clear_kind hkind) ?_ ?_ (by simp) (List.forall_mem_singleton.2 (h.fits hbyte hn))
  · rw [List.map_singleton, h.extent_eq, List.map_singleton]
  · intro e he
    cases List.mem_singleton.1 he
    exact ⟨Nat.le_refl _, Nat.le_refl _⟩

end Shape.Renders

open Shape (Renders)

theorem Ident.shape_renders (field : Field) (name : Ident) :
    Renders byte comments (name.shape byte field) (.name name) :=
  .token (n := .name name) rfl

theorem Ident.shapes_render (field : Field) (names : List Ident) :
    Forall₂ (Renders byte comments) (names.map (Ident.shape byte field))
      (names.map SyntaxNode.name) := by
  rw [List.forall₂_map_left_iff, List.forall₂_map_right_iff, List.forall₂_same]
  exact fun name _ => name.shape_renders field

theorem StringPart.shape_extent (part : StringPart) :
    (part.shape byte).extent = part.extent.located byte := by
  cases part with
  | content text extent => rfl
  | escape raw value extent => rfl

theorem StringPart.shape_fits {part : StringPart} (hbyte : Monotone byte)
    (hle : part.extent.start ≤ part.extent.stop) (hapart : ∀ c ∈ comments, part.extent.Apart c) :
    (part.shape byte).FitsAmong byte comments := by
  cases part with
  | content text extent => exact Shape.leaf_fits hbyte hle hapart
  | escape raw value extent => exact Shape.leaf_fits hbyte hle hapart

/-- The parts of a string are in its token, after its tag. -/
theorem Literal.shape_renders (span : Span) (lit : Literal) :
    Renders byte comments (lit.shape byte span) (.expr ⟨.literal lit, span⟩) := by
  cases lit with
  | integer lit => exact .token (n := .expr ⟨.literal (.integer lit), span⟩) rfl
  | string lit =>
    refine ⟨rfl, fun hbyte h => ?_⟩
    have hforward : span.start ≤ span.stop := h.self.forward
    have hclear : Clear comments .stringLit ⟨span.start, span.stop⟩ := h.self.clear_kind rfl
    have hapart : ∀ e : Extent, e.Inside span.extent → ∀ c ∈ comments, e.Apart c :=
      fun e he c hc => (h.self.token rfl c hc).inside he
    have hparts : InOrder span.stop (span.start + (lit.tag.getD "").length)
        (lit.parts.map StringPart.extent) := h.self.strings lit rfl
    have hinside : ∀ e ∈ lit.parts.map StringPart.extent, e.Inside span.extent := by
      intro e he
      have hb := hparts.bounds he
      exact ⟨by dsimp only [Span.extent]; omega, hb.2.2⟩
    have hfits : ∀ s ∈ lit.parts.map (StringPart.shape byte), s.FitsAmong byte comments := by
      intro s hs
      obtain ⟨part, hpart, rfl⟩ := List.mem_map.1 hs
      have hmem : part.extent ∈ lit.parts.map StringPart.extent := List.mem_map_of_mem hpart
      exact part.shape_fits hbyte (Nat.le_of_lt (hparts.bounds hmem).2.1)
        (hapart _ (hinside _ hmem))
    have hextents : (lit.parts.map (StringPart.shape byte)).map Shape.extent =
        (lit.parts.map StringPart.extent).map (Extent.located byte) := by
      rw [List.map_map, List.map_map]
      exact List.map_congr_left fun part _ => part.shape_extent
    rw [Literal.shape]
    cases htag : lit.tag with
    | none =>
      exact Shape.covering_fits hbyte (lit.parts.map StringPart.extent) hforward (fun _ => rfl)
        hclear hextents hinside hparts.pairwise hfits
    | some tag =>
      rw [htag] at hparts
      have htag : Extent.Inside ⟨span.start, span.start + tag.length⟩ span.extent :=
        ⟨Nat.le_refl _, hparts.le⟩
      refine Shape.covering_fits hbyte
        (⟨span.start, span.start + tag.length⟩ :: lit.parts.map StringPart.extent) hforward
        (fun _ => rfl) hclear ?_ (List.forall_mem_cons.2 ⟨htag, hinside⟩)
        (.cons (fun e he => ?_) hparts.pairwise) (List.forall_mem_cons.2 ⟨?_, hfits⟩)
      · rw [List.map_append, hextents]
        rfl
      · exact (hparts.bounds he).1
      · exact Shape.leaf_fits hbyte (Nat.le_add_right _ _) (hapart _ htag)

theorem Path.shape_renders (span : Span) (p : Path) :
    Renders byte comments (p.shape byte span) (.expr ⟨.path p, span⟩) := by
  obtain ⟨root, segments⟩ := p
  have hsegments : Forall₂ (Renders byte comments) (segments.map (Ident.shape byte .seg))
      (segments.map SyntaxNode.name) := Ident.shapes_render .seg segments
  rw [Path.shape]
  cases root with
  | orb orbSpan =>
    exact .some_parts (n := .expr ⟨.path ⟨.orb orbSpan, segments⟩, span⟩) rfl
      (List.sublist_cons_self _ _) hsegments
  | ident name =>
    exact .all_parts (n := .expr ⟨.path ⟨.ident name, segments⟩, span⟩) rfl
      (.cons (name.shape_renders .firstSeg) hsegments)

/-- A form of expression has shapes for all of its parts. -/
theorem Shape.Renders.form {form : ExprKind} {span : Span} {kind : NodeKind}
    {field : Option Field} {children : List Shape} (hkind : kind.isLeaf = false)
    (hchildren : Forall₂ (Renders byte comments) children form.parts) :
    Renders byte comments (Shape.ofSpan byte kind field span children) (.expr ⟨form, span⟩) :=
  .all_parts (n := .expr ⟨form, span⟩) hkind hchildren

/-- The operator that comes last has no part of its own. -/
theorem Shape.Renders.deref {operand : Expr} {span : Span} {field : Option Field} {inner : Shape}
    (h : Renders byte comments inner (.expr operand)) :
    Renders byte comments (Shape.ofSpan byte .rightUnaryExpr field span [inner,
      Shape.covering byte .deref (some .deref) (span.stop - 2) span.stop []])
      (.expr ⟨.deref operand, span⟩) := by
  refine ⟨rfl, fun hbyte hn => ?_⟩
  obtain ⟨hbefore, hapart⟩ := hn.self.closer rfl
  have hoperand : SyntaxNode.expr operand ∈ (SyntaxNode.expr ⟨.deref operand, span⟩).parts :=
    List.mem_singleton.2 rfl
  have hwithin := hn.self.within _ hoperand
  have hle := hbefore _ hoperand
  have hforward := (hn.part hoperand).self.forward
  simp only [SyntaxNode.span] at hwithin hle hforward hapart
  refine Shape.covering_fits hbyte [operand.span.extent, ⟨span.stop - 2, span.stop⟩] hn.self.forward
    (fun _ => rfl) (hn.self.clear_kind rfl) ?_ ?_ ?_ ?_
  · rw [List.map_cons, h.extent_eq]
    rfl
  · refine List.forall_mem_cons.2 ⟨hwithin, List.forall_mem_singleton.2 ⟨?_, Nat.le_refl _⟩⟩
    dsimp only
    omega
  · exact List.pairwise_pair.2 hle
  · exact List.forall_mem_cons.2 ⟨h.fits hbyte (hn.part hoperand), List.forall_mem_singleton.2
      (Shape.leaf_fits hbyte (Nat.sub_le _ _) hapart)⟩

/-- A block after a label has no node around it. -/
theorem Shape.Renders.labeled {label : Ident} {body : Block} {span blockSpan : Span}
    {field : Option Field} {first second : Shape}
    (hlabel : Renders byte comments first (.name label))
    (hbody : Renders byte comments second (.block body)) :
    Renders byte comments (Shape.ofSpan byte .labeledExpr field span [first, second])
      (.expr ⟨.labeled label ⟨.block body, blockSpan⟩, span⟩) := by
  refine ⟨rfl, fun hbyte hn => ?_⟩
  have hparts := hn.self.within
  have hpairs := hn.self.inOrder
  have hblock : (SyntaxNode.expr ⟨.block body, blockSpan⟩).Settles comments :=
    hn.part (List.mem_cons_of_mem _ (List.mem_singleton.2 rfl))
  have hinner := hblock.self.within (.block body) (List.mem_singleton.2 rfl)
  obtain ⟨hfirst, hsecond⟩ := List.forall_mem_cons.1 hparts
  have hsecond := List.forall_mem_singleton.1 hsecond
  have hpair := List.pairwise_pair.1 hpairs
  simp only [SyntaxNode.span] at hinner hfirst hsecond hpair
  refine Shape.covering_fits hbyte [label.span.extent, body.span.extent] hn.self.forward
    (fun _ => rfl) (hn.self.clear_kind rfl) ?_ ?_ ?_ ?_
  · rw [List.map_cons, List.map_singleton, hlabel.extent_eq, hbody.extent_eq]
    rfl
  · refine List.forall_mem_cons.2 ⟨hfirst, List.forall_mem_singleton.2 ?_⟩
    unfold Extent.Inside Span.extent
    dsimp only
    omega
  · refine List.pairwise_pair.2 ?_
    unfold Span.extent
    dsimp only
    omega
  · exact List.forall_mem_cons.2 ⟨hlabel.fits hbyte (hn.part (List.mem_cons_self ..)),
      List.forall_mem_singleton.2 (hbody.fits hbyte (hblock.part (List.mem_singleton.2 rfl)))⟩

theorem labels_render (label : Option Ident) :
    Forall₂ (Renders byte comments) (label.map (Ident.shape byte .label)).toList
      (label.map SyntaxNode.name).toList := by
  cases label with
  | none => exact .nil
  | some label => exact .cons (label.shape_renders .label) .nil

mutual

theorem Expr.shape_renders (field : Option Field) : ∀ e : Expr,
    Renders byte comments (e.shape byte field) (.expr e)
  | ⟨form, span⟩ => by
    rw [Expr.shape]
    exact ExprKind.shape_renders field span form

theorem ExprKind.shape_renders (field : Option Field) (span : Span) : ∀ form : ExprKind,
    Renders byte comments (form.shape byte field span) (.expr ⟨form, span⟩)
  | .bool value => by
    rw [ExprKind.shape]
    exact .token (n := .expr ⟨.bool value, span⟩) rfl
  | .null => by
    rw [ExprKind.shape]
    exact .token (n := .expr ⟨.null, span⟩) rfl
  | .error => by
    rw [ExprKind.shape]
    exact .form rfl .nil
  | .literal lit => by
    rw [ExprKind.shape]
    exact .wrap (n := .expr ⟨.literal lit, span⟩) rfl (lit.shape_renders span)
  | .path path => by
    rw [ExprKind.shape]
    exact .wrap (n := .expr ⟨.path path, span⟩) rfl (path.shape_renders span)
  | .paren inner => by
    rw [ExprKind.shape]
    exact .form rfl (.cons (inner.shape_renders none) .nil)
  | .binary lhs op rhs => by
    rw [ExprKind.shape]
    exact .form rfl (.cons (lhs.shape_renders (some .lhs))
      (.cons (.token (n := .binOp op) rfl) (.cons (rhs.shape_renders (some .rhs)) .nil)))
  | .assign lhs rhs => by
    rw [ExprKind.shape]
    exact .form rfl (.cons (lhs.shape_renders (some .lhs))
      (.cons (rhs.shape_renders (some .rhs)) .nil))
  | .unary op operand => by
    rw [ExprKind.shape]
    exact .form rfl (.cons (.token (n := .unOp op) rfl)
      (.cons (operand.shape_renders none) .nil))
  | .deref operand => by
    rw [ExprKind.shape]
    exact .deref (operand.shape_renders none)
  | .borrow none operand => by
    rw [ExprKind.shape]
    exact .form rfl (.cons (operand.shape_renders none) .nil)
  | .borrow (some mutSpan) operand => by
    rw [ExprKind.shape]
    exact .form rfl (.cons (.token (n := .word "mut" mutSpan) rfl)
      (.cons (operand.shape_renders none) .nil))
  | .call callee args => by
    rw [ExprKind.shape]
    exact .form rfl (.cons (callee.shape_renders (some .callee))
      (.cons (Arguments.shape_renders args) .nil))
  | .field base name => by
    rw [ExprKind.shape]
    exact .form rfl (.cons (base.shape_renders none)
      (.cons (name.shape_renders .member) .nil))
  | .conditional cond consequent alternative => by
    rw [ExprKind.shape]
    exact .form rfl (.cons (cond.shape_renders (some .cond))
      (.cons (consequent.shape_renders (some .thenBranch))
        (alternativeShapes_render alternative)))
  | .ret value => by
    rw [ExprKind.shape]
    exact .form rfl (optionShapes_render none value)
  | .brk label value => by
    rw [ExprKind.shape]
    exact .form rfl
      (List.rel_append (labels_render label) (optionShapes_render none value))
  | .cont label => by
    rw [ExprKind.shape]
    exact .form rfl (labels_render label)
  | .block body => by
    rw [ExprKind.shape]
    exact .form rfl (.cons (body.shape_renders (some .block)) .nil)
  | .whileLoop cond body => by
    rw [ExprKind.shape]
    exact .form rfl (.cons (cond.shape_renders (some .cond))
      (.cons (body.shape_renders (some .body)) .nil))
  | .forLoop var iterator body => by
    rw [ExprKind.shape]
    exact .form rfl (.cons (var.shape_renders .var)
      (.cons (iterator.shape_renders (some .iterator))
        (.cons (body.shape_renders (some .body)) .nil)))
  | .loop body => by
    rw [ExprKind.shape]
    exact .form rfl (.cons (body.shape_renders (some .body)) .nil)
  | .labeled label ⟨form, inner⟩ => by
    have hinner := Expr.shape_renders none ⟨form, inner⟩
    cases form with
    | block body =>
      rw [ExprKind.shape]
      exact .labeled (label.shape_renders .label) (body.shape_renders none)
    | _ =>
      rw [ExprKind.shape]
      · exact .form rfl (.cons (label.shape_renders .label) (.cons hinner .nil))
      · simp

theorem Arguments.shape_renders : ∀ args : Arguments,
    Renders byte comments (args.shape byte) (.arguments args)
  | ⟨args, span⟩ => by
    rw [Arguments.shape]
    exact .all_parts (n := .arguments ⟨args, span⟩) rfl (exprShapes_render args)

theorem alternativeShapes_render : ∀ alternative : Option Alternative,
    Forall₂ (Renders byte comments) (alternativeShapes byte alternative)
      (alternative.map Alternative.node).toList
  | none => .nil
  | some (.chain conditional) => by
    rw [alternativeShapes]
    exact .cons (conditional.shape_renders (some .elseBranch)) .nil
  | some (.block body) => by
    rw [alternativeShapes]
    exact .cons (body.shape_renders (some .elseBranch)) .nil

theorem Block.shape_renders (field : Option Field) : ∀ b : Block,
    Renders byte comments (b.shape byte field) (.block b)
  | ⟨stmts, lastExpr, span⟩ => by
    rw [Block.shape]
    exact .all_parts (n := .block ⟨stmts, lastExpr, span⟩) rfl
      (List.rel_append (stmtShapes_render stmts) (optionShapes_render (some .lastExpr) lastExpr))

theorem optionShapes_render (field : Option Field) : ∀ value : Option Expr,
    Forall₂ (Renders byte comments) (optionShapes byte field value)
      (value.map SyntaxNode.expr).toList
  | none => .nil
  | some e => by
    rw [optionShapes]
    exact .cons (e.shape_renders field) .nil

theorem exprShapes_render : ∀ es : List Expr,
    Forall₂ (Renders byte comments) (exprShapes byte es) (es.map SyntaxNode.expr)
  | [] => .nil
  | e :: rest => by
    rw [exprShapes]
    exact .cons (e.shape_renders none) (exprShapes_render rest)

theorem stmtShapes_render : ∀ stmts : List Stmt,
    Forall₂ (Renders byte comments) (stmtShapes byte stmts)
      (stmts.map fun s => SyntaxNode.expr s.expr)
  | [] => .nil
  | ⟨e, _⟩ :: rest => by
    rw [stmtShapes]
    exact .cons (e.shape_renders (some .stmt)) (stmtShapes_render rest)

end

theorem Item.shape_renders (item : Item) :
    Renders byte comments (item.shape byte) (.item item) := by
  refine .all_parts (n := .item item) rfl
    (.cons (item.definition.name.shape_renders .name) (List.rel_append ?_
      (.cons (item.definition.value.shape_renders (some .value)) .nil)))
  cases item.definition.type with
  | none => exact .nil
  | some type =>
    cases type with
    | primitive type => exact .cons (.token (n := .primitive type) rfl) .nil
    | expr e => exact .cons (e.shape_renders (some .typeexpr)) .nil

/-- The tree of a file has a node for it, from its start to its end. -/
theorem sourceShape_renders {file : SourceFile} {id : UInt16} {chars : Nat}
    (hspan : file.span = ⟨id, 0, chars⟩) :
    Renders byte comments (sourceShape byte chars (some file)) (.file file) := by
  have hitems : Forall₂ (Renders byte comments) (file.items.map (Item.shape byte))
      (SyntaxNode.file file).parts := by
    rw [SyntaxNode.parts, List.forall₂_map_left_iff, List.forall₂_map_right_iff, List.forall₂_same]
    exact fun item _ => item.shape_renders
  have hfile : Renders byte comments (Shape.ofSpan byte .sourceFile none file.span _) (.file file) :=
    .all_parts rfl hitems
  rw [hspan] at hfile
  exact hfile

end

/-- **The tree of a text fits among its comments.** -/
theorem sourceShape_fits (text : String) (id : UInt16) :
    (sourceShape (SourceIndex.ofSource text).byte text.length (parse text id).file).FitsAmong
      (SourceIndex.ofSource text).byte (Tree.commentExtents (parse text id).tokens) := by
  obtain ⟨file, hfile, hspan, hsettled⟩ := parse_settled text id
  rw [hfile]
  exact (sourceShape_renders hspan).fits (fun _ _ h => SourceIndex.byte_mono text h) hsettled

end LunSyntax
