import LunSyntax.Tree

/-!
# The tree of a syntax

What the tree of a source should be, by plain recursion on its syntax: without a table, without
numbers, and without anything that is added to it later on.

* `Expr.shape` and the like: the node of a form of syntax with all below it, where `byte` leads from
  the chars that spans count to bytes; `sourceShape` is that of a whole source;
* `Expr.sexp` and the like: the S-expression of a form of syntax, as a text;
* `sourceShape_sexp`: the latter is the S-expression of the former.
-/

set_option autoImplicit false

namespace LunSyntax

/-! ## Shapes of syntax -/

namespace Shape

/-- A node for a range of chars, where `byte` tells the first byte of a char. -/
def covering (byte : Nat → Nat) (kind : NodeKind) (field : Option Field) (start stop : Nat)
    (children : List Shape) : Shape :=
  node kind field ⟨byte start, byte stop⟩ children

/-- A node for a span. -/
def ofSpan (byte : Nat → Nat) (kind : NodeKind) (field : Option Field) (span : Span)
    (children : List Shape) : Shape :=
  covering byte kind field span.start span.stop children

end Shape

open Shape (covering ofSpan)

variable (byte : Nat → Nat)

/-- The node of a name. -/
def Ident.shape (field : Field) (name : Ident) : Shape :=
  ofSpan byte .identifier (some field) name.span []

def StringPart.shape : StringPart → Shape
  | content _ extent => covering byte .stringContent none extent.start extent.stop []
  | escape _ _ extent => covering byte .escapeSequence none extent.start extent.stop []

/-- The node of a literal.  The tag of an integer is part of it, the tag of a string a node. -/
def Literal.shape (span : Span) : Literal → Shape
  | integer _ => ofSpan byte .integerLit none span []
  | string lit =>
    let tag := match lit.tag with
      | some tag =>
        [covering byte .identifier (some .tag) span.start (span.start + tag.length) []]
      | none => []
    ofSpan byte .stringLit none span (tag ++ lit.parts.map (StringPart.shape byte))

/-- The node of a path.  The root of the program has no node. -/
def Path.shape (span : Span) (p : Path) : Shape :=
  let first := match p.root with
    | .ident name => [name.shape byte .firstSeg]
    | .orb _ => []
  ofSpan byte .path none span (first ++ p.segments.map (Ident.shape byte .seg))

mutual

/-- The node of an expression in a field. -/
def Expr.shape (field : Option Field) : Expr → Shape
  | ⟨kind, span⟩ => kind.shape field span

/-- The node of a form of expression in a field. -/
def ExprKind.shape (field : Option Field) (span : Span) : ExprKind → Shape
  | .bool _ => ofSpan byte .boolExpr field span []
  | .literal lit => ofSpan byte .litExpr field span [lit.shape byte span]
  | .null => ofSpan byte .nullExpr field span []
  | .paren inner => ofSpan byte .parenExpr field span [inner.shape none]
  | .path path => ofSpan byte .pathExpr field span [path.shape byte span]
  | .binary lhs op rhs =>
    ofSpan byte .binaryExpr field span [lhs.shape (some .lhs),
      ofSpan byte op.node.nodeKind (some .op) op.span [], rhs.shape (some .rhs)]
  | .assign lhs rhs =>
    ofSpan byte .assignExpr field span [lhs.shape (some .lhs), rhs.shape (some .rhs)]
  | .unary op operand =>
    ofSpan byte .leftUnaryExpr field span [ofSpan byte op.node.nodeKind (some .op) op.span [],
      operand.shape none]
  -- the operator is the last token
  | .deref operand =>
    ofSpan byte .rightUnaryExpr field span [operand.shape none,
      covering byte .deref (some .deref) (span.stop - 2) span.stop []]
  | .borrow mutSpan operand =>
    ofSpan byte .borrowExpr field span
      ((match mutSpan with
        | some mutSpan => [ofSpan byte .mutSpec none mutSpan []]
        | none => []) ++ [operand.shape none])
  | .call callee args =>
    ofSpan byte .callExpr field span [callee.shape (some .callee), args.shape]
  | .field base name =>
    ofSpan byte .fieldExpr field span [base.shape none, name.shape byte .member]
  | .conditional cond consequent alternative =>
    ofSpan byte .ifExpr field span (cond.shape (some .cond)
      :: consequent.shape (some .thenBranch) :: alternativeShapes alternative)
  | .ret value => ofSpan byte .returnExpr field span (optionShapes none value)
  | .brk label value =>
    ofSpan byte .breakExpr field span
      ((label.map (Ident.shape byte .label)).toList ++ optionShapes none value)
  | .cont label =>
    ofSpan byte .continueExpr field span (label.map (Ident.shape byte .label)).toList
  | .block body => ofSpan byte .blockExpr field span [body.shape (some .block)]
  | .whileLoop cond body =>
    ofSpan byte .whileExpr field span [cond.shape (some .cond), body.shape (some .body)]
  | .forLoop var iterator body =>
    ofSpan byte .forExpr field span [var.shape byte .var, iterator.shape (some .iterator),
      body.shape (some .body)]
  | .loop body => ofSpan byte .loopExpr field span [body.shape (some .body)]
  -- a labeled block is a bare block
  | .labeled label ⟨.block body, _⟩ =>
    ofSpan byte .labeledExpr field span [label.shape byte .label, body.shape none]
  | .labeled label inner =>
    ofSpan byte .labeledExpr field span [label.shape byte .label, inner.shape none]
  | .error => ofSpan byte .error field span []

def Arguments.shape : Arguments → Shape
  | ⟨args, span⟩ => ofSpan byte .arguments (some .args) span (exprShapes args)

/-- The node of the other case of a conditional, if there is one. -/
def alternativeShapes : Option Alternative → List Shape
  | none => []
  | some (.chain conditional) => [conditional.shape (some .elseBranch)]
  | some (.block body) => [body.shape (some .elseBranch)]

/-- The node of a block in a field. -/
def Block.shape (field : Option Field) : Block → Shape
  | ⟨stmts, lastExpr, span⟩ =>
    ofSpan byte .block field span (stmtShapes stmts ++ optionShapes (some .lastExpr) lastExpr)

/-- The node of an expression, if there is one. -/
def optionShapes (field : Option Field) : Option Expr → List Shape
  | none => []
  | some e => [e.shape field]

def exprShapes : List Expr → List Shape
  | [] => []
  | e :: rest => e.shape none :: exprShapes rest

def stmtShapes : List Stmt → List Shape
  | [] => []
  | ⟨e, _⟩ :: rest => e.shape (some .stmt) :: stmtShapes rest

end

def TypeExpr.shape : TypeExpr → Shape
  | primitive type => ofSpan byte .primitiveType (some .typeexpr) type.span []
  | expr e => e.shape byte (some .typeexpr)

/-- The node of an item. -/
def Item.shape (item : Item) : Shape :=
  let d := item.definition
  ofSpan byte .globalDefItem none item.span
    ([d.name.shape byte .name] ++ (d.type.map (TypeExpr.shape byte)).toList
      ++ [d.value.shape byte (some .value)])

/-- The tree of a source of some chars, whatever could be parsed of it. -/
def sourceShape (chars : Nat) (file : Option SourceFile) : Shape :=
  covering byte .sourceFile none 0 chars
    (match file with
      | some file => file.items.map (Item.shape byte)
      | none => [])

/-! ## S-expressions of syntax -/

/-- A node as an S-expression: its name and its children, each after the name of its field. -/
def writeNode (name : String) (children : List (Option String × String)) : String :=
  "(" ++ name ++ String.join (children.map fun (field, text) =>
    match field with
    | some field => " " ++ field ++ ": " ++ text
    | none => " " ++ text) ++ ")"

def writeIdent (field : String) : Option String × String := (some field, writeNode "identifier" [])

def StringPart.sexp : StringPart → String
  | content _ _ => writeNode "string_content" []
  | escape _ _ _ => writeNode "escape_sequence" []

def Literal.sexp : Literal → String
  | integer _ => writeNode "integer_lit" []
  | string lit => writeNode "string_lit" ((lit.tag.map fun _ => writeIdent "tag").toList
    ++ lit.parts.map fun part => (none, part.sexp))

/-- A path. -/
def Path.sexp (p : Path) : String :=
  let first := match p.root with
    | .ident _ => [writeIdent "first_seg"]
    | .orb _ => []
  writeNode "path" (first ++ p.segments.map fun _ => writeIdent "seg")

mutual

/-- An expression. -/
def Expr.sexp : Expr → String
  | ⟨kind, _⟩ => kind.sexp

/-- A form of expression. -/
def ExprKind.sexp : ExprKind → String
  | .bool _ => writeNode "bool_expr" []
  | .literal lit => writeNode "lit_expr" [(none, lit.sexp)]
  | .null => writeNode "null_expr" []
  | .paren inner => writeNode "paren_expr" [(none, inner.sexp)]
  | .path path => writeNode "path_expr" [(none, path.sexp)]
  | .binary lhs op rhs => writeNode "binary_expr" [(some "lhs", lhs.sexp),
    (some "op", writeNode op.node.text []), (some "rhs", rhs.sexp)]
  | .assign lhs rhs => writeNode "assign_expr" [(some "lhs", lhs.sexp), (some "rhs", rhs.sexp)]
  | .unary op operand => writeNode "left_unary_expr" [(some "op", writeNode op.node.text []),
    (none, operand.sexp)]
  | .deref operand => writeNode "right_unary_expr" [(none, operand.sexp),
    (some "deref", writeNode ".*" [])]
  | .borrow mutSpan operand => writeNode "borrow_expr"
    ((mutSpan.map fun _ => (none, writeNode "mut_spec" [])).toList ++ [(none, operand.sexp)])
  | .call callee args => writeNode "call_expr" [(some "callee", callee.sexp),
    (some "args", args.sexp)]
  | .field base _ => writeNode "field_expr" [(none, base.sexp), writeIdent "field"]
  | .conditional cond consequent alternative => writeNode "if_expr"
    ((some "cond", cond.sexp) :: (some "then", consequent.sexp) :: alternativeSexps alternative)
  | .ret value => writeNode "return_expr" (optionSexps none value)
  | .brk label value => writeNode "break_expr"
    ((label.map fun _ => writeIdent "label").toList ++ optionSexps none value)
  | .cont label => writeNode "continue_expr" (label.map fun _ => writeIdent "label").toList
  | .block body => writeNode "block_expr" [(some "block", body.sexp)]
  | .whileLoop cond body => writeNode "while_expr" [(some "cond", cond.sexp),
    (some "body", body.sexp)]
  | .forLoop _ iterator body => writeNode "for_expr" [writeIdent "var",
    (some "iterator", iterator.sexp), (some "body", body.sexp)]
  | .loop body => writeNode "loop_expr" [(some "body", body.sexp)]
  -- a labeled block is a bare block
  | .labeled _ ⟨.block body, _⟩ => writeNode "labeled_expr" [writeIdent "label",
    (none, body.sexp)]
  | .labeled _ inner => writeNode "labeled_expr" [writeIdent "label", (none, inner.sexp)]
  | .error => writeNode "ERROR" []

def Arguments.sexp : Arguments → String
  | ⟨args, _⟩ => writeNode "arguments" (exprSexps args)

def alternativeSexps : Option Alternative → List (Option String × String)
  | none => []
  | some (.chain conditional) => [(some "else", conditional.sexp)]
  | some (.block body) => [(some "else", body.sexp)]

def Block.sexp : Block → String
  | ⟨stmts, lastExpr, _⟩ =>
    writeNode "block" (stmtSexps stmts ++ optionSexps (some "last_expr") lastExpr)

def optionSexps (field : Option String) : Option Expr → List (Option String × String)
  | none => []
  | some e => [(field, e.sexp)]

def exprSexps : List Expr → List (Option String × String)
  | [] => []
  | e :: rest => (none, e.sexp) :: exprSexps rest

def stmtSexps : List Stmt → List (Option String × String)
  | [] => []
  | ⟨e, _⟩ :: rest => (some "stmt", e.sexp) :: stmtSexps rest

end

def TypeExpr.sexp : TypeExpr → String
  | primitive _ => writeNode "primitive_type" []
  | expr e => e.sexp

/-- An item. -/
def Item.sexp (item : Item) : String :=
  let d := item.definition
  writeNode "global_def_item" ([writeIdent "name"]
    ++ (d.type.map fun type => (some "typeexpr", type.sexp)).toList
    ++ [(some "value", d.value.sexp)])

def SourceFile.sexp (file : SourceFile) : String :=
  writeNode "source_file" (file.items.map fun item => (none, item.sexp))

/-! ## Writing shapes -/

namespace Shape

mutual

/-- The S-expression of a node comes before whatever is written after it. -/
theorem sexpBefore_eq (after : List Char) : ∀ s : Shape,
    s.sexpBefore after = s.sexpBefore [] ++ after
  | node kind field extent children => by
    rw [sexpBefore, sexpBefore, childrenBefore_eq _ children, childrenBefore_eq [')'] children]
    simp

theorem childrenBefore_eq (after : List Char) : ∀ children : List Shape,
    childrenBefore after children = childrenBefore [] children ++ after
  | [] => by simp [childrenBefore]
  | node kind field extent children :: rest => by
    simp only [childrenBefore]
    rw [sexpBefore_eq (childrenBefore after rest), sexpBefore_eq (childrenBefore [] rest),
      childrenBefore_eq after rest]
    cases field with
    | none => simp
    | some field => simp

end

/-- A child with the name of its field. -/
def written (s : Shape) : Option String × String := (s.field.map Field.text, s.sexp)

theorem sexp_toList (s : Shape) : s.sexp.toList = s.sexpBefore [] := by
  rw [sexp, String.toList_ofList]

theorem childrenBefore_written (children : List Shape) :
    childrenBefore [] children = (String.join ((children.map written).map fun (field, text) =>
      match field with
      | some field => " " ++ field ++ ": " ++ text
      | none => " " ++ text)).toList := by
  rw [String.toList_join]
  induction children with
  | nil => rfl
  | cons child rest ih =>
    obtain ⟨kind, field, extent, children⟩ := child
    simp only [childrenBefore]
    rw [sexpBefore_eq, ih, ← sexp_toList]
    cases field with
    | none => simp [written, Shape.field]
    | some field => simp [written, Shape.field]

theorem node_sexp (kind : NodeKind) (field : Option Field) (extent : Extent)
    (children : List Shape) :
    (node kind field extent children).sexp = writeNode kind.name (children.map written) := by
  apply String.toList_inj.1
  rw [sexp_toList, sexpBefore, childrenBefore_eq, childrenBefore_written]
  simp [writeNode]

end Shape

namespace Shape

variable (byte : Nat → Nat)

@[simp]
theorem covering_written (kind : NodeKind) (field : Option Field) (start stop : Nat)
    (children : List Shape) :
    (covering byte kind field start stop children).written =
      (field.map Field.text, writeNode kind.name (children.map written)) := by
  rw [written, covering, node_sexp]
  rfl

@[simp]
theorem ofSpan_written (kind : NodeKind) (field : Option Field) (span : Span)
    (children : List Shape) :
    (ofSpan byte kind field span children).written =
      (field.map Field.text, writeNode kind.name (children.map written)) :=
  covering_written byte kind field span.start span.stop children

end Shape

variable (byte : Nat → Nat)

@[simp]
theorem Ident.shape_written (field : Field) (name : Ident) :
    (name.shape byte field).written = writeIdent field.text := by
  rw [Ident.shape, Shape.ofSpan_written]
  rfl

@[simp]
theorem BinOp.nodeKind_name (op : BinOp) : op.nodeKind.name = op.text := by
  cases op <;> rfl

@[simp]
theorem UnOp.nodeKind_name (op : UnOp) : op.nodeKind.name = op.text := by
  cases op <;> rfl

@[simp]
theorem StringPart.shape_written (part : StringPart) :
    (part.shape byte).written = (none, part.sexp) := by
  cases part with
  | content text extent => rw [StringPart.shape, Shape.covering_written]; rfl
  | escape raw value extent => rw [StringPart.shape, Shape.covering_written]; rfl

@[simp]
theorem Literal.shape_written (span : Span) (lit : Literal) :
    (lit.shape byte span).written = (none, lit.sexp) := by
  cases lit with
  | integer lit => rw [Literal.shape, Shape.ofSpan_written]; rfl
  | string lit =>
    rw [Literal.shape, Shape.ofSpan_written, Literal.sexp]
    cases lit.tag with
    | none => simp [Function.comp_def, NodeKind.name]
    | some tag => simp [Function.comp_def, NodeKind.name, Field.text, writeIdent]

@[simp]
theorem Path.shape_written (span : Span) (p : Path) :
    (p.shape byte span).written = (none, p.sexp) := by
  rw [Path.shape, Shape.ofSpan_written, Path.sexp]
  cases p.root with
  | orb span => simp [Function.comp_def, NodeKind.name, Field.text]
  | ident name => simp [Function.comp_def, NodeKind.name, Field.text]

theorem labels_written (label : Option Ident) :
    (label.map (Ident.shape byte .label)).toList.map Shape.written =
      (label.map fun _ => writeIdent "label").toList := by
  cases label with
  | none => rfl
  | some label => simp [Field.text]

mutual

theorem Expr.shape_written (field : Option Field) : ∀ e : Expr,
    (e.shape byte field).written = (field.map Field.text, e.sexp)
  | ⟨kind, span⟩ => by
    rw [Expr.shape, Expr.sexp]
    exact ExprKind.shape_written field span kind

theorem ExprKind.shape_written (field : Option Field) (span : Span) : ∀ kind : ExprKind,
    (kind.shape byte field span).written = (field.map Field.text, kind.sexp)
  | .bool _ | .null | .error => by
    simp [ExprKind.shape, ExprKind.sexp, NodeKind.name]
  | .literal lit => by simp [ExprKind.shape, ExprKind.sexp, NodeKind.name]
  | .path path => by simp [ExprKind.shape, ExprKind.sexp, NodeKind.name]
  | .paren inner => by
    simp [ExprKind.shape, ExprKind.sexp, NodeKind.name, Expr.shape_written none inner]
  | .binary lhs op rhs => by
    simp only [ExprKind.shape, ExprKind.sexp, Shape.ofSpan_written, List.map_cons, List.map_nil,
      Expr.shape_written (some .lhs) lhs, Expr.shape_written (some .rhs) rhs,
      BinOp.nodeKind_name]
    rfl
  | .assign lhs rhs => by
    simp [ExprKind.shape, ExprKind.sexp, NodeKind.name, Field.text,
      Expr.shape_written (some .lhs) lhs, Expr.shape_written (some .rhs) rhs]
  | .unary op operand => by
    simp only [ExprKind.shape, ExprKind.sexp, Shape.ofSpan_written, List.map_cons, List.map_nil,
      Expr.shape_written none operand, UnOp.nodeKind_name]
    rfl
  | .deref operand => by
    simp [ExprKind.shape, ExprKind.sexp, NodeKind.name, Field.text,
      Expr.shape_written none operand]
  | .borrow none operand => by
    simp [ExprKind.shape, ExprKind.sexp, NodeKind.name, Expr.shape_written none operand]
  | .borrow (some _) operand => by
    simp [ExprKind.shape, ExprKind.sexp, NodeKind.name, Expr.shape_written none operand]
  | .call callee args => by
    simp [ExprKind.shape, ExprKind.sexp, NodeKind.name, Field.text,
      Expr.shape_written (some .callee) callee, Arguments.shape_written args]
  | .field base name => by
    simp [ExprKind.shape, ExprKind.sexp, NodeKind.name, Field.text, Expr.shape_written none base]
  | .conditional cond consequent alternative => by
    simp [ExprKind.shape, ExprKind.sexp, NodeKind.name, Field.text,
      Expr.shape_written (some .cond) cond, Block.shape_written (some .thenBranch) consequent,
      alternativeShapes_written alternative]
  | .ret value => by
    simp [ExprKind.shape, ExprKind.sexp, NodeKind.name, optionShapes_written none value]
  | .brk label value => by
    rw [ExprKind.shape, ExprKind.sexp, Shape.ofSpan_written, List.map_append, labels_written,
      optionShapes_written none value]
    rfl
  | .cont label => by
    rw [ExprKind.shape, ExprKind.sexp, Shape.ofSpan_written, labels_written]
    rfl
  | .block body => by
    simp [ExprKind.shape, ExprKind.sexp, NodeKind.name, Field.text,
      Block.shape_written (some .block) body]
  | .whileLoop cond body => by
    simp [ExprKind.shape, ExprKind.sexp, NodeKind.name, Field.text,
      Expr.shape_written (some .cond) cond, Block.shape_written (some .body) body]
  | .forLoop var iterator body => by
    simp [ExprKind.shape, ExprKind.sexp, NodeKind.name, Field.text,
      Expr.shape_written (some .iterator) iterator, Block.shape_written (some .body) body]
  | .loop body => by
    simp [ExprKind.shape, ExprKind.sexp, NodeKind.name, Field.text,
      Block.shape_written (some .body) body]
  | .labeled label ⟨kind, inner⟩ => by
    have hinner := Expr.shape_written none ⟨kind, inner⟩
    cases kind with
    | block body =>
      simp [ExprKind.shape, ExprKind.sexp, NodeKind.name, Field.text,
        Block.shape_written none body]
    | _ => simp [ExprKind.shape, ExprKind.sexp, NodeKind.name, Field.text, hinner]

theorem Arguments.shape_written : ∀ args : Arguments,
    (args.shape byte).written = (some "args", args.sexp)
  | ⟨args, span⟩ => by
    simp [Arguments.shape, Arguments.sexp, NodeKind.name, Field.text, exprShapes_written args]

theorem alternativeShapes_written : ∀ alternative : Option Alternative,
    (alternativeShapes byte alternative).map Shape.written = alternativeSexps alternative
  | none => rfl
  | some (.chain conditional) => by
    simp [alternativeShapes, alternativeSexps, Field.text,
      Expr.shape_written (some .elseBranch) conditional]
  | some (.block body) => by
    simp [alternativeShapes, alternativeSexps, Field.text,
      Block.shape_written (some .elseBranch) body]

theorem Block.shape_written (field : Option Field) : ∀ b : Block,
    (b.shape byte field).written = (field.map Field.text, b.sexp)
  | ⟨stmts, lastExpr, span⟩ => by
    simp [Block.shape, Block.sexp, NodeKind.name, Field.text, stmtShapes_written stmts,
      optionShapes_written (some .lastExpr) lastExpr]

theorem optionShapes_written (field : Option Field) : ∀ value : Option Expr,
    (optionShapes byte field value).map Shape.written =
      optionSexps (field.map Field.text) value
  | none => rfl
  | some e => by simp [optionShapes, optionSexps, Expr.shape_written field e]

theorem exprShapes_written : ∀ es : List Expr,
    (exprShapes byte es).map Shape.written = exprSexps es
  | [] => rfl
  | e :: rest => by
    simp [exprShapes, exprSexps, Expr.shape_written none e, exprShapes_written rest]

theorem stmtShapes_written : ∀ stmts : List Stmt,
    (stmtShapes byte stmts).map Shape.written = stmtSexps stmts
  | [] => rfl
  | ⟨e, _⟩ :: rest => by
    simp [stmtShapes, stmtSexps, Field.text, Expr.shape_written (some .stmt) e,
      stmtShapes_written rest]

end

theorem Item.shape_written (item : Item) : (item.shape byte).written = (none, item.sexp) := by
  rw [Item.shape, Shape.ofSpan_written, Item.sexp]
  cases item.definition.type with
  | none => simp [NodeKind.name, Field.text, Expr.shape_written]
  | some type =>
    cases type with
    | primitive type =>
      simp [NodeKind.name, Field.text, Expr.shape_written, TypeExpr.shape, TypeExpr.sexp]
    | expr e => simp [NodeKind.name, Field.text, Expr.shape_written, TypeExpr.shape, TypeExpr.sexp]

/-- **The tree of a file is written as the file is**, wherever the bytes of its chars are. -/
theorem sourceShape_sexp (chars : Nat) (file : SourceFile) :
    (sourceShape byte chars (some file)).sexp = file.sexp := by
  have h := Shape.covering_written byte .sourceFile none 0 chars
    (file.items.map (Item.shape byte))
  have hitems : (file.items.map (Item.shape byte)).map Shape.written =
      file.items.map fun item => (none, item.sexp) := by
    rw [List.map_map]
    exact List.map_congr_left fun item _ => Item.shape_written byte item
  rw [hitems] at h
  exact congrArg Prod.snd h

end LunSyntax
