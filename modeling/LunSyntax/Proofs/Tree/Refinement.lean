import LunSyntax.Proofs.Tree.Numbering

/-!
# Lowering makes the tree of a syntax

Lowering works on a shared table, in which nodes know each other by their numbers.  What it adds is
the tree that plain recursion on the syntax makes.

* `Lowering.Adds`: a lowering adds some shapes below a parent, one after the other; there is one
  lemma for each way to put lowerings together;
* `Expr.lower_adds` and the like: each form of syntax adds its shape;
* `lowering_refines`: the table of a file, unfolded from its root on, is the shape of the file, its
  numbers are in preorder, and it is written as the file is.
-/

set_option autoImplicit false

namespace LunSyntax

namespace Lowering

/-- A lowering adds shapes below a parent, and nothing else. -/
def Adds (m : Lowering Unit) (parent : Nat) (shapes : List Shape) : Prop :=
  ∀ arena : Arena, m.run arena = ((), arena.graftAll parent shapes)

variable {byte : Nat → Nat} {m m' : Lowering Unit} {parent : Nat} {s : Shape} {ss ss' : List Shape}

theorem graftAll_append (arena : Arena) (parent : Nat) (ss ss' : List Shape) :
    arena.graftAll parent (ss ++ ss') = (arena.graftAll parent ss).graftAll parent ss' := by
  induction ss generalizing arena with
  | nil => simp [Arena.graftAll]
  | cons s rest ih => simp [Arena.graftAll, ih]

namespace Adds

theorem pure : Adds (Pure.pure ()) parent [] := fun _ => rfl

theorem append (h : Adds m parent ss) (h' : Adds m' parent ss') :
    Adds (m >>= fun _ => m') parent (ss ++ ss') := by
  intro arena
  rw [graftAll_append]
  have hrun : (m >>= fun _ => m').run arena = m'.run (m.run arena).2 := rfl
  rw [hrun, h arena]
  exact h' _

theorem cons (h : Adds m parent [s]) (h' : Adds m' parent ss) :
    Adds (m >>= fun _ => m') parent (s :: ss) :=
  h.append h'

theorem push {field : Option Field} {kind : NodeKind} {start stop : Nat}
    {f : Nat → Lowering Unit} (h : ∀ id, Adds (f id) id ss) :
    Adds (Lowering.push byte (some parent) field kind start stop >>= f) parent
      [Shape.covering byte kind field start stop ss] :=
  fun arena => h arena.size (arena.place (some parent) kind field ⟨byte start, byte stop⟩)

theorem node {field : Option Field} {kind : NodeKind} {span : Span} {f : Nat → Lowering Unit}
    (h : ∀ id, Adds (f id) id ss) :
    Adds (Lowering.node byte parent field kind span >>= f) parent
      [Shape.ofSpan byte kind field span ss] :=
  push h

theorem pushLeaf {field : Option Field} {kind : NodeKind} {start stop : Nat} :
    Adds (discard (Lowering.push byte (some parent) field kind start stop)) parent
      [Shape.covering byte kind field start stop []] :=
  fun _ => rfl

theorem leaf {field : Option Field} {kind : NodeKind} {span : Span} :
    Adds (discard (Lowering.node byte parent field kind span)) parent
      [Shape.ofSpan byte kind field span []] :=
  fun _ => rfl

theorem forM {α : Type} {f : α → Lowering Unit} {shape : α → Shape}
    (h : ∀ a, Adds (f a) parent [shape a]) (as : List α) :
    Adds (as.forM f) parent (as.map shape) := by
  induction as with
  | nil => exact pure
  | cons a as ih => exact (h a).cons ih

end Adds

end Lowering

open Lowering (Adds)

variable (byte : Nat → Nat)

theorem Ident.lower_adds (parent : Nat) (field : Field) (name : Ident) :
    Adds (name.lower byte parent field) parent [name.shape byte field] :=
  .leaf

theorem StringPart.lower_adds (parent : Nat) (part : StringPart) :
    Adds (part.lower byte parent) parent [part.shape byte] := by
  cases part with
  | content text extent => exact .pushLeaf
  | escape raw value extent => exact .pushLeaf

theorem Literal.lower_adds (parent : Nat) (span : Span) (lit : Literal) :
    Adds (lit.lower byte parent span) parent [lit.shape byte span] := by
  cases lit with
  | integer lit => exact .leaf
  | string lit =>
    rw [Literal.lower, Literal.shape]
    refine .node fun self => ?_
    have hparts := Adds.forM (StringPart.lower_adds byte self) lit.parts
    cases lit.tag with
    | none => exact hparts
    | some tag => exact .cons .pushLeaf hparts

theorem Path.lower_adds (parent : Nat) (span : Span) (p : Path) :
    Adds (p.lower byte parent span) parent [p.shape byte span] := by
  rw [Path.lower, Path.shape]
  refine .node fun self => ?_
  have hsegments := Adds.forM (Ident.lower_adds byte self .seg) p.segments
  cases p.root with
  | orb span => exact hsegments
  | ident name => exact .cons (name.lower_adds byte self .firstSeg) hsegments

mutual

theorem Expr.lower_adds (parent : Nat) (field : Option Field) : ∀ e : Expr,
    Adds (e.lower byte parent field) parent [e.shape byte field]
  | ⟨kind, span⟩ => by
    rw [Expr.lower, Expr.shape]
    exact ExprKind.lower_adds parent field span kind

theorem ExprKind.lower_adds (parent : Nat) (field : Option Field) (span : Span) :
    ∀ kind : ExprKind,
      Adds (kind.lower byte parent field span) parent [kind.shape byte field span]
  | .bool _ => by
    rw [ExprKind.lower, ExprKind.shape]
    exact .leaf
  | .null => by
    rw [ExprKind.lower, ExprKind.shape]
    exact .leaf
  | .error => by
    rw [ExprKind.lower, ExprKind.shape]
    exact .leaf
  | .literal lit => by
    rw [ExprKind.lower, ExprKind.shape]
    exact .node fun self => lit.lower_adds byte self span
  | .path path => by
    rw [ExprKind.lower, ExprKind.shape]
    exact .node fun self => path.lower_adds byte self span
  | .paren inner => by
    rw [ExprKind.lower, ExprKind.shape]
    exact .node fun self => Expr.lower_adds self none inner
  | .binary lhs op rhs => by
    rw [ExprKind.lower, ExprKind.shape]
    exact .node fun self => .cons (Expr.lower_adds self (some .lhs) lhs)
      (.cons .leaf (Expr.lower_adds self (some .rhs) rhs))
  | .assign lhs rhs => by
    rw [ExprKind.lower, ExprKind.shape]
    exact .node fun self => .cons (Expr.lower_adds self (some .lhs) lhs)
      (Expr.lower_adds self (some .rhs) rhs)
  | .unary op operand => by
    rw [ExprKind.lower, ExprKind.shape]
    exact .node fun self => .cons .leaf (Expr.lower_adds self none operand)
  | .deref operand => by
    rw [ExprKind.lower, ExprKind.shape]
    exact .node fun self => .cons (Expr.lower_adds self none operand) .pushLeaf
  | .borrow none operand => by
    rw [ExprKind.lower, ExprKind.shape]
    exact .node fun self => Expr.lower_adds self none operand
  | .borrow (some _) operand => by
    rw [ExprKind.lower, ExprKind.shape]
    exact .node fun self => .cons .leaf (Expr.lower_adds self none operand)
  | .call callee args => by
    rw [ExprKind.lower, ExprKind.shape]
    exact .node fun self => .cons (Expr.lower_adds self (some .callee) callee)
      (Arguments.lower_adds self args)
  | .field base name => by
    rw [ExprKind.lower, ExprKind.shape]
    exact .node fun self => .cons (Expr.lower_adds self none base)
      (name.lower_adds byte self .member)
  | .conditional cond consequent alternative => by
    rw [ExprKind.lower, ExprKind.shape]
    exact .node fun self => .cons (Expr.lower_adds self (some .cond) cond)
      (.cons (Block.lower_adds self (some .thenBranch) consequent)
        (lowerAlternative_adds self alternative))
  | .ret value => by
    rw [ExprKind.lower, ExprKind.shape]
    exact .node fun self => lowerOption_adds self none value
  | .brk none value => by
    rw [ExprKind.lower, ExprKind.shape]
    exact .node fun self => lowerOption_adds self none value
  | .brk (some label) value => by
    rw [ExprKind.lower, ExprKind.shape]
    exact .node fun self => .cons (label.lower_adds byte self .label)
      (lowerOption_adds self none value)
  | .cont none => by
    rw [ExprKind.lower, ExprKind.shape]
    exact .node fun self => .pure
  | .cont (some label) => by
    rw [ExprKind.lower, ExprKind.shape]
    exact .node fun self => label.lower_adds byte self .label
  | .block body => by
    rw [ExprKind.lower, ExprKind.shape]
    exact .node fun self => Block.lower_adds self (some .block) body
  | .whileLoop cond body => by
    rw [ExprKind.lower, ExprKind.shape]
    exact .node fun self => .cons (Expr.lower_adds self (some .cond) cond)
      (Block.lower_adds self (some .body) body)
  | .forLoop var iterator body => by
    rw [ExprKind.lower, ExprKind.shape]
    exact .node fun self => .cons (var.lower_adds byte self .var)
      (.cons (Expr.lower_adds self (some .iterator) iterator)
        (Block.lower_adds self (some .body) body))
  | .loop body => by
    rw [ExprKind.lower, ExprKind.shape]
    exact .node fun self => Block.lower_adds self (some .body) body
  | .labeled label ⟨kind, inner⟩ => by
    have hinner := fun self => Expr.lower_adds self none ⟨kind, inner⟩
    cases kind with
    | block body =>
      rw [ExprKind.lower, ExprKind.shape]
      exact .node fun self => .cons (label.lower_adds byte self .label)
        (Block.lower_adds self none body)
    | _ =>
      rw [ExprKind.lower, ExprKind.shape]
      · exact .node fun self => .cons (label.lower_adds byte self .label) (hinner self)
      · simp

theorem Arguments.lower_adds (parent : Nat) : ∀ args : Arguments,
    Adds (args.lower byte parent) parent [args.shape byte]
  | ⟨args, span⟩ => by
    rw [Arguments.lower, Arguments.shape]
    exact .node fun self => lowerExprs_adds self args

theorem lowerAlternative_adds (parent : Nat) : ∀ alternative : Option Alternative,
    Adds (lowerAlternative byte parent alternative) parent (alternativeShapes byte alternative)
  | none => .pure
  | some (.chain conditional) => by
    rw [lowerAlternative, alternativeShapes]
    exact Expr.lower_adds parent (some .elseBranch) conditional
  | some (.block body) => by
    rw [lowerAlternative, alternativeShapes]
    exact Block.lower_adds parent (some .elseBranch) body

theorem Block.lower_adds (parent : Nat) (field : Option Field) : ∀ b : Block,
    Adds (b.lower byte parent field) parent [b.shape byte field]
  | ⟨stmts, lastExpr, span⟩ => by
    rw [Block.lower, Block.shape]
    exact .node fun self => .append (lowerStmts_adds self stmts)
      (lowerOption_adds self (some .lastExpr) lastExpr)

theorem lowerOption_adds (parent : Nat) (field : Option Field) : ∀ value : Option Expr,
    Adds (lowerOption byte parent field value) parent (optionShapes byte field value)
  | none => .pure
  | some e => by
    rw [lowerOption, optionShapes]
    exact Expr.lower_adds parent field e

theorem lowerExprs_adds (parent : Nat) : ∀ es : List Expr,
    Adds (lowerExprs byte parent es) parent (exprShapes byte es)
  | [] => .pure
  | e :: rest => by
    rw [lowerExprs, exprShapes]
    exact .cons (Expr.lower_adds parent none e) (lowerExprs_adds parent rest)

theorem lowerStmts_adds (parent : Nat) : ∀ stmts : List Stmt,
    Adds (lowerStmts byte parent stmts) parent (stmtShapes byte stmts)
  | [] => .pure
  | ⟨e, _⟩ :: rest => by
    rw [lowerStmts, stmtShapes]
    exact .cons (Expr.lower_adds parent (some .stmt) e) (lowerStmts_adds parent rest)

end

theorem TypeExpr.lower_adds (parent : Nat) (type : TypeExpr) :
    Adds (type.lower byte parent) parent [type.shape byte] := by
  cases type with
  | primitive type => exact .leaf
  | expr e => exact e.lower_adds byte parent (some .typeexpr)

theorem Item.lower_adds (parent : Nat) (item : Item) :
    Adds (item.lower byte parent) parent [item.shape byte] := by
  rw [Item.lower, Item.shape]
  refine .node fun self => .cons (item.definition.name.lower_adds byte self .name) ?_
  have hvalue := item.definition.value.lower_adds byte self (some .value)
  cases item.definition.type with
  | none => exact hvalue
  | some type => exact .cons (type.lower_adds byte self) hvalue

/-- The table of a source is that of its shape. -/
theorem lowerSource_eq (chars : Nat) (file : Option SourceFile) :
    lowerSource byte chars file = Arena.graft #[] none (sourceShape byte chars file) := by
  cases file with
  | none => rfl
  | some file =>
    have hitems := Adds.forM (Item.lower_adds byte 0) file.items
      (Arena.place #[] none .sourceFile none ⟨byte 0, byte chars⟩)
    exact congrArg Prod.snd hitems

/-- The shape of a source stands in its table, from the root on, and there is nothing else. -/
theorem lowerSource_lays (chars : Nat) (file : Option SourceFile) :
    (lowerSource byte chars file).size = (sourceShape byte chars file).size ∧
      (lowerSource byte chars file).Lays none 0 (sourceShape byte chars file) := by
  have h := Arena.graft_grafts (sourceShape byte chars file) #[] none (by simp)
  rw [← lowerSource_eq] at h
  refine ⟨?_, h.new.1⟩
  rw [h.size_eq]
  simp [Shape.sizeAll]

/-- **Lowering refines recursion on the syntax.**  For any file and any index, the table without
comments and errors, unfolded from its root on through the children of its nodes, is the shape of
the file, and the numbers of its nodes are those in preorder.  So the tree of a source without
comments and errors is written as its file is. -/
theorem lowering_refines :
    (∀ (index : SourceIndex) (file : SourceFile),
      (Tree.nodes index (some file) [] []).shapeAt 0 =
        some (sourceShape index.byte index.charCount (some file)) ∧
      ∀ t : Tree, t.arena = Tree.nodes index (some file) [] [] →
        t.preorder = List.range t.arena.size) ∧
    ∀ (language : Language) (source : String) (options : Options) (file : SourceFile),
      (Tree.parse language source options).file = some file →
      (Tree.parse language source options).diagnostics = [] →
      (∀ token ∈ (lex source options.source).1, token.kind.isComment = false) →
        (Tree.parse language source options).sexp 0 = file.sexp := by
  have hnodes : ∀ (index : SourceIndex) (file : SourceFile),
      (Tree.nodes index (some file) [] []).size =
          (sourceShape index.byte index.charCount (some file)).size ∧
        (Tree.nodes index (some file) [] []).Lays none 0
          (sourceShape index.byte index.charCount (some file)) := by
    intro index file
    obtain ⟨hsize, hlays⟩ := lowerSource_lays index.byte index.charCount (some file)
    obtain ⟨hsize', hsame⟩ :=
      (lowerSource index.byte index.charCount (some file)).propagateErrors_same
    exact ⟨hsize'.trans hsize, hlays.frame (hsame _ _)⟩
  have hshape : ∀ (index : SourceIndex) (file : SourceFile),
      (Tree.nodes index (some file) [] []).shapeAt 0 =
        some (sourceShape index.byte index.charCount (some file)) := by
    intro index file
    obtain ⟨hsize, hlays⟩ := hnodes index file
    exact hlays.shapeWithin_eq (Nat.le_of_eq hsize.symm)
  refine ⟨fun index file => ⟨hshape index file, fun t ht => ?_⟩, ?_⟩
  · obtain ⟨hsize, hlays⟩ := hnodes index file
    rw [← ht] at hsize hlays
    rw [Tree.preorder, hlays.preorderWithin_eq (Nat.le_of_eq hsize.symm), ← hsize,
      List.range_eq_range']
  · intro language source options file hfile hdiagnostics hcomments
    have hnone : Tree.commentExtents (parse source options.source).tokens = [] := by
      have hfilter : (parse source options.source).tokens.filter (fun t => t.kind.isComment) = [] := by
        rw [List.filter_eq_nil_iff]
        intro token htoken
        simp [hcomments token htoken]
      rw [Tree.commentExtents, hfilter, List.map_nil]
    have harena : (Tree.parse language source options).arena =
        Tree.nodes (SourceIndex.ofSource source) (some file) [] [] := by
      have hfile : (parse source options.source).file = some file := hfile
      have herrors : Tree.errorExtents (parse source options.source).diagnostics = [] :=
        congrArg Tree.errorExtents hdiagnostics
      simp only [Tree.parse, hfile, hnone, herrors]
    rw [Tree.sexp, harena, hshape]
    exact sourceShape_sexp _ _ file

/-- A labeled block, which is a bare one, with the two borrows of one token, a string with a tag and
an operator after its operand. -/
theorem lowering_refines_labeled :
    let t := Tree.parse .current "x :: a: \x7b -f(&&mut y, c\"b\\n\").*; \x7d;" {}
    ∃ file, t.file = some file ∧ t.diagnostics = [] ∧ t.sexp 0 = file.sexp := by
  intro t
  have hdiagnostics : t.diagnostics = [] := by decide +kernel
  have hsome : t.file.isSome = true := by decide +kernel
  obtain ⟨file, hfile⟩ := Option.isSome_iff_exists.1 hsome
  exact ⟨file, hfile, hdiagnostics,
    lowering_refines.2 _ _ _ file hfile hdiagnostics (by decide +kernel)⟩

end LunSyntax
