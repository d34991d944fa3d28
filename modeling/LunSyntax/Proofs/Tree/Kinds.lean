import Mathlib.Data.List.Basic
import LunSyntax.Proofs.Grammar.Totality
import LunSyntax.Proofs.Tree.Structure

/-!
# Kinds of nodes

Which kinds the nodes of a source have, other than those of its syntax: no comment is among them,
and there is an error node iff an expression was given up.

* `Shape.Has`: a kind is that of a node of a shape;
* `Expr.shape_has` and the like: one walk through the syntax for both of these kinds;
* `sourceShape_has`: those of a whole source.
-/

set_option autoImplicit false

namespace LunSyntax

/-- A kind is that of a node of a shape. -/
inductive Shape.Has (kind : NodeKind) : Shape → Prop
  | here {field : Option Field} {extent : Extent} {children : List Shape} :
    Shape.Has kind (.node kind field extent children)
  | inside {s : Shape} {k : NodeKind} {field : Option Field} {extent : Extent}
    {children : List Shape} : s ∈ children → Shape.Has kind s →
      Shape.Has kind (.node k field extent children)

namespace Shape

variable {byte : Nat → Nat} {kind : NodeKind} {field : Option Field} {children : List Shape}

@[simp]
theorem has_node_iff {k : NodeKind} {extent : Extent} :
    (node k field extent children).Has kind ↔ kind = k ∨ ∃ s ∈ children, s.Has kind := by
  constructor
  · rintro (_ | ⟨hs, h⟩)
    · exact .inl rfl
    · exact .inr ⟨_, hs, h⟩
  · rintro (rfl | ⟨s, hs, h⟩)
    · exact .here
    · exact .inside hs h

@[simp]
theorem has_covering_iff {k : NodeKind} {start stop : Nat} :
    (covering byte k field start stop children).Has kind ↔
      kind = k ∨ ∃ s ∈ children, s.Has kind :=
  has_node_iff

@[simp]
theorem has_ofSpan_iff {k : NodeKind} {span : Span} :
    (ofSpan byte k field span children).Has kind ↔ kind = k ∨ ∃ s ∈ children, s.Has kind :=
  has_node_iff

end Shape

/-! ## Errors of syntax -/

namespace SyntaxNode

theorem hasError_iff {n : SyntaxNode} :
    n.HasError ↔ (∃ e, n = .expr e ∧ e.kind = .error) ∨ ∃ part ∈ n.parts, part.HasError := by
  constructor
  · rintro ⟨e, hwithin, hkind⟩
    cases hwithin with
    | refl => exact .inl ⟨e, rfl, hkind⟩
    | part hpart hwithin => exact .inr ⟨_, hpart, e, hwithin, hkind⟩
  · rintro (⟨e, rfl, hkind⟩ | ⟨part, hpart, e, hwithin, hkind⟩)
    · exact ⟨e, .refl, hkind⟩
    · exact ⟨e, .part hpart hwithin, hkind⟩

theorem hasError_expr_iff {form : ExprKind} {span : Span} :
    (SyntaxNode.expr ⟨form, span⟩).HasError ↔
      form = .error ∨ ∃ part ∈ form.parts, part.HasError := by
  rw [hasError_iff]
  simp [parts]

theorem hasError_block_iff {stmts : List Stmt} {lastExpr : Option Expr} {span : Span} :
    (SyntaxNode.block ⟨stmts, lastExpr, span⟩).HasError ↔
      (∃ part ∈ stmts.map (fun s => SyntaxNode.expr s.expr), part.HasError) ∨
        ∃ part ∈ (lastExpr.map SyntaxNode.expr).toList, part.HasError := by
  rw [hasError_iff]
  simp only [reduceCtorEq, false_and, exists_false, false_or, parts, List.mem_append, or_and_right,
    exists_or]

theorem hasError_arguments_iff {args : List Expr} {span : Span} :
    (SyntaxNode.arguments ⟨args, span⟩).HasError ↔
      ∃ part ∈ args.map SyntaxNode.expr, part.HasError := by
  rw [hasError_iff]
  simp only [reduceCtorEq, false_and, exists_false, false_or, parts]

@[simp]
theorem not_hasError_name (name : Ident) : ¬ (SyntaxNode.name name).HasError :=
  (Fits.name name).not_hasError

@[simp]
theorem not_hasError_binOp (op : Spanned BinOp) : ¬ (SyntaxNode.binOp op).HasError :=
  (Fits.binOp op).not_hasError

@[simp]
theorem not_hasError_unOp (op : Spanned UnOp) : ¬ (SyntaxNode.unOp op).HasError :=
  (Fits.unOp op).not_hasError

@[simp]
theorem not_hasError_word (text : String) (span : Span) : ¬ (SyntaxNode.word text span).HasError :=
  (Fits.word text span).not_hasError

@[simp]
theorem not_hasError_root (root : PathRoot) : ¬ root.node.HasError :=
  (Fits.root root).not_hasError

@[simp]
theorem not_hasError_primitive (type : Spanned PrimitiveType) :
    ¬ (SyntaxNode.primitive type).HasError :=
  (Fits.primitive type).not_hasError

end SyntaxNode

open SyntaxNode (hasError_expr_iff hasError_block_iff hasError_arguments_iff)

/-! ## Kinds which no rule of the grammar makes -/

/-- The kinds of nodes which are no syntax: of what was given up, and of comments. -/
inductive NodeKind.Extra : NodeKind → Prop
  | error : Extra .error
  | comment : Extra .comment

attribute [simp] NodeKind.Extra.error NodeKind.Extra.comment

section

variable {byte : Nat → Nat} {kind : NodeKind}

theorem Ident.shape_has (hk : kind.Extra) (field : Field) (name : Ident) :
    ¬ (name.shape byte field).Has kind := by
  cases hk <;> simp [Ident.shape]

theorem Literal.shape_has (hk : kind.Extra) (span : Span) (lit : Literal) :
    ¬ (lit.shape byte span).Has kind := by
  have hpart : ∀ part : StringPart, ¬ (part.shape byte).Has kind := by
    rintro (_ | _) <;> cases hk <;> simp [StringPart.shape]
  cases lit with
  | integer lit => cases hk <;> simp [Literal.shape]
  | string lit => cases hk <;> cases htag : lit.tag <;> simp [Literal.shape, htag, hpart]

theorem Path.shape_has (hk : kind.Extra) (span : Span) (p : Path) :
    ¬ (p.shape byte span).Has kind := by
  cases hk <;> cases hroot : p.root <;> simp [Path.shape, hroot, Ident.shape_has]

theorem BinOp.nodeKind_ne (op : BinOp) (hk : kind.Extra) : kind ≠ op.nodeKind := by
  cases hk <;> cases op <;> decide

theorem UnOp.nodeKind_ne (op : UnOp) (hk : kind.Extra) : kind ≠ op.nodeKind := by
  cases hk <;> cases op <;> decide

mutual

theorem Expr.shape_has (hk : kind.Extra) (field : Option Field) : ∀ e : Expr,
    (e.shape byte field).Has kind ↔ kind = .error ∧ (SyntaxNode.expr e).HasError
  | ⟨form, span⟩ => by
    rw [Expr.shape]
    exact ExprKind.shape_has hk field span form

/-- **A form has an error node iff an expression in it was given up**, and no comment. -/
theorem ExprKind.shape_has (hk : kind.Extra) (field : Option Field) (span : Span) :
    ∀ form : ExprKind, (form.shape byte field span).Has kind ↔
      kind = .error ∧ (SyntaxNode.expr ⟨form, span⟩).HasError
  | .bool value => by cases hk <;> simp [hasError_expr_iff, ExprKind.shape, ExprKind.parts]
  | .null => by cases hk <;> simp [hasError_expr_iff, ExprKind.shape, ExprKind.parts]
  | .error => by cases hk <;> simp [hasError_expr_iff, ExprKind.shape]
  | .literal lit => by
    have hlit : ¬ (lit.shape byte span).Has kind := lit.shape_has hk span
    cases hk <;> simp [hasError_expr_iff, ExprKind.shape, ExprKind.parts, hlit]
  | .path path => by
    have hpath : ¬ (path.shape byte span).Has kind := path.shape_has hk span
    cases hk <;> simp [hasError_expr_iff, ExprKind.shape, ExprKind.parts, hpath]
  | .paren inner => by
    have hinner := Expr.shape_has hk none inner
    cases hk <;> simp [hasError_expr_iff, ExprKind.shape, ExprKind.parts, hinner]
  | .binary lhs op rhs => by
    have hlhs := Expr.shape_has hk (some .lhs) lhs
    have hrhs := Expr.shape_has hk (some .rhs) rhs
    have hop := op.node.nodeKind_ne hk
    cases hk <;> simp [hasError_expr_iff, ExprKind.shape, ExprKind.parts, hlhs, hrhs, hop]
  | .assign lhs rhs => by
    have hlhs := Expr.shape_has hk (some .lhs) lhs
    have hrhs := Expr.shape_has hk (some .rhs) rhs
    cases hk <;> simp [hasError_expr_iff, ExprKind.shape, ExprKind.parts, hlhs, hrhs]
  | .unary op operand => by
    have hoperand := Expr.shape_has hk none operand
    have hop := op.node.nodeKind_ne hk
    cases hk <;> simp [hasError_expr_iff, ExprKind.shape, ExprKind.parts, hoperand, hop]
  | .deref operand => by
    have hoperand := Expr.shape_has hk none operand
    cases hk <;> simp [hasError_expr_iff, ExprKind.shape, ExprKind.parts, hoperand]
  | .borrow mutSpan operand => by
    have hoperand := Expr.shape_has hk none operand
    cases hk <;> cases mutSpan <;>
      simp [hasError_expr_iff, ExprKind.shape, ExprKind.parts, hoperand]
  | .call callee args => by
    have hcallee := Expr.shape_has hk (some .callee) callee
    have hargs := Arguments.shape_has hk args
    cases hk <;> simp [hasError_expr_iff, ExprKind.shape, ExprKind.parts, hcallee, hargs]
  | .field base name => by
    have hbase := Expr.shape_has hk none base
    cases hk <;> simp [hasError_expr_iff, ExprKind.shape, ExprKind.parts, hbase, name.shape_has]
  | .conditional cond consequent alternative => by
    have hcond := Expr.shape_has hk (some .cond) cond
    have hconsequent := Block.shape_has hk (some .thenBranch) consequent
    have halternative := alternativeShapes_have hk alternative
    cases hk <;> simp [hasError_expr_iff, ExprKind.shape, ExprKind.parts, hcond, hconsequent,
      halternative]
  | .ret value => by
    have hvalue := optionShapes_have hk none value
    cases hk <;> simp [hasError_expr_iff, ExprKind.shape, ExprKind.parts, hvalue]
  | .brk label value => by
    have hvalue := optionShapes_have hk none value
    cases hk <;> cases label <;>
      simp [hasError_expr_iff, ExprKind.shape, ExprKind.parts, hvalue, Ident.shape_has]
  | .cont label => by
    cases hk <;> cases label <;>
      simp [hasError_expr_iff, ExprKind.shape, ExprKind.parts, Ident.shape_has]
  | .block body => by
    have hbody := Block.shape_has hk (some .block) body
    cases hk <;> simp [hasError_expr_iff, ExprKind.shape, ExprKind.parts, hbody]
  | .whileLoop cond body => by
    have hcond := Expr.shape_has hk (some .cond) cond
    have hbody := Block.shape_has hk (some .body) body
    cases hk <;> simp [hasError_expr_iff, ExprKind.shape, ExprKind.parts, hcond, hbody]
  | .forLoop var iterator body => by
    have hiterator := Expr.shape_has hk (some .iterator) iterator
    have hbody := Block.shape_has hk (some .body) body
    cases hk <;> simp [hasError_expr_iff, ExprKind.shape, ExprKind.parts, hiterator, hbody,
      var.shape_has]
  | .loop body => by
    have hbody := Block.shape_has hk (some .body) body
    cases hk <;> simp [hasError_expr_iff, ExprKind.shape, ExprKind.parts, hbody]
  | .labeled label ⟨form, inner⟩ => by
    have hinner := Expr.shape_has hk none ⟨form, inner⟩
    cases form with
    | block body =>
      have hbody := Block.shape_has hk none body
      rw [ExprKind.shape]
      cases hk <;> simp [hasError_expr_iff, ExprKind.parts, hbody, label.shape_has]
    | _ =>
      rw [ExprKind.shape]
      · cases hk <;>
          simp [@hasError_expr_iff (.labeled _ _), ExprKind.parts, hinner, label.shape_has]
      · simp

theorem Arguments.shape_has (hk : kind.Extra) : ∀ args : Arguments,
    (args.shape byte).Has kind ↔ kind = .error ∧ (SyntaxNode.arguments args).HasError
  | ⟨args, span⟩ => by
    rw [hasError_arguments_iff, ← exprShapes_have hk args]
    cases hk <;> simp [Arguments.shape]

theorem alternativeShapes_have (hk : kind.Extra) : ∀ alternative : Option Alternative,
    (∃ s ∈ alternativeShapes byte alternative, s.Has kind) ↔
      kind = .error ∧ ∃ part ∈ (alternative.map Alternative.node).toList, part.HasError
  | none => by simp [alternativeShapes]
  | some (.chain conditional) => by
    simp [alternativeShapes, Alternative.node, Expr.shape_has hk _ conditional]
  | some (.block body) => by
    simp [alternativeShapes, Alternative.node, Block.shape_has hk _ body]

theorem Block.shape_has (hk : kind.Extra) (field : Option Field) : ∀ b : Block,
    (b.shape byte field).Has kind ↔ kind = .error ∧ (SyntaxNode.block b).HasError
  | ⟨stmts, lastExpr, span⟩ => by
    rw [hasError_block_iff, and_or_left, ← stmtShapes_have hk stmts,
      ← optionShapes_have hk (some .lastExpr) lastExpr]
    cases hk <;> simp [Block.shape, or_and_right, exists_or]

theorem optionShapes_have (hk : kind.Extra) (field : Option Field) : ∀ value : Option Expr,
    (∃ s ∈ optionShapes byte field value, s.Has kind) ↔
      kind = .error ∧ ∃ part ∈ (value.map SyntaxNode.expr).toList, part.HasError
  | none => by simp [optionShapes]
  | some e => by simp [optionShapes, Expr.shape_has hk field e]

theorem exprShapes_have (hk : kind.Extra) : ∀ es : List Expr,
    (∃ s ∈ exprShapes byte es, s.Has kind) ↔
      kind = .error ∧ ∃ part ∈ es.map SyntaxNode.expr, part.HasError
  | [] => by simp [exprShapes]
  | e :: rest => by
    have hfirst := Expr.shape_has hk none e
    have hrest := exprShapes_have hk rest
    simp only [exprShapes, List.map_cons, List.exists_mem_cons_iff, hrest, hfirst, and_or_left]

theorem stmtShapes_have (hk : kind.Extra) : ∀ stmts : List Stmt,
    (∃ s ∈ stmtShapes byte stmts, s.Has kind) ↔
      kind = .error ∧ ∃ part ∈ stmts.map (fun s => SyntaxNode.expr s.expr), part.HasError
  | [] => by simp [stmtShapes]
  | ⟨e, _⟩ :: rest => by
    have hfirst := Expr.shape_has hk (some .stmt) e
    have hrest := stmtShapes_have hk rest
    simp only [stmtShapes, List.map_cons, List.exists_mem_cons_iff, hrest, hfirst, and_or_left]

end

theorem Item.shape_has (hk : kind.Extra) (item : Item) :
    (item.shape byte).Has kind ↔ kind = .error ∧ (SyntaxNode.item item).HasError := by
  rw [SyntaxNode.hasError_iff]
  have hvalue := @Expr.shape_has byte kind hk (some .value) item.definition.value
  have hname := @Ident.shape_has byte kind hk .name item.definition.name
  cases htype : item.definition.type with
  | none => cases hk <;> simp [Item.shape, SyntaxNode.parts, htype, hvalue, hname]
  | some type =>
    cases type with
    | primitive type =>
      cases hk <;>
        simp [Item.shape, SyntaxNode.parts, htype, TypeExpr.shape, TypeExpr.node, hvalue, hname]
    | expr e =>
      have he := @Expr.shape_has byte kind hk (some .typeexpr) e
      cases hk <;>
        simp [Item.shape, SyntaxNode.parts, htype, TypeExpr.shape, TypeExpr.node, he, hvalue, hname]

/-- The tree of a file has an error node iff an expression in the file was given up, and no
comment. -/
theorem sourceShape_has (hk : kind.Extra) (chars : Nat) (file : SourceFile) :
    (sourceShape byte chars (some file)).Has kind ↔
      kind = .error ∧ (SyntaxNode.file file).HasError := by
  rw [SyntaxNode.hasError_iff]
  have hitems := @Item.shape_has byte kind hk
  cases hk <;> simp [sourceShape, SyntaxNode.parts, hitems]

end

end LunSyntax
