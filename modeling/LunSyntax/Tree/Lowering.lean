import LunSyntax.Ast
import LunSyntax.Tree.Arena

/-!
# From syntax to nodes

A `Lowering` adds nodes to a table.  Each form of syntax adds its node as the last child of a parent
known by its number, then whatever is below it; `byte` leads from the chars that spans count to
bytes.

* `Lowering.push` and `Lowering.node` add a node and return its number;
* `Expr.lower`, `Block.lower` and the like add all nodes of some syntax;
* `lowerSource` makes the table of a whole source.
-/

set_option autoImplicit false

namespace LunSyntax

/-- What adds nodes to a table. -/
abbrev Lowering := StateM Arena

variable (byte : Nat → Nat)

namespace Lowering

/-- Add a node for a range of chars and return its number. -/
def push (parent : Option Nat) (field : Option Field) (kind : NodeKind) (start stop : Nat) :
    Lowering Nat :=
  modifyGet fun arena =>
    (arena.size, Arena.place arena parent kind field ⟨byte start, byte stop⟩)

/-- Add a node for a span and return its number. -/
def node (parent : Nat) (field : Option Field) (kind : NodeKind) (span : Span) : Lowering Nat :=
  push byte (some parent) field kind span.start span.stop

end Lowering

open Lowering (push node)

def Ident.lower (parent : Nat) (field : Field) (name : Ident) : Lowering Unit :=
  discard <| node byte parent (some field) .identifier name.span

def BinOp.nodeKind : BinOp → NodeKind
  | mul => .mul | div => .div | mod => .mod | add => .add | sub => .sub | shl => .shl
  | shr => .shr | bitAnd => .bitAnd | bitXor => .bitXor | bitOr => .bitOr | eq => .eq
  | ne => .ne | gt => .gt | lt => .lt | gte => .gte | lte => .lte | and => .and | or => .or

def UnOp.nodeKind : UnOp → NodeKind
  | neg => .sub
  | not => .not

/-- Add a part of a string. -/
def StringPart.lower (parent : Nat) : StringPart → Lowering Unit
  | content _ extent =>
    discard <| push byte (some parent) none .stringContent extent.start extent.stop
  | escape _ _ extent =>
    discard <| push byte (some parent) none .escapeSequence extent.start extent.stop

/-- Add a literal.  The tag of an integer is part of it, the tag of a string a node. -/
def Literal.lower (parent : Nat) (span : Span) : Literal → Lowering Unit
  | integer _ => discard <| node byte parent none .integerLit span
  | string lit => do
    let string ← node byte parent none .stringLit span
    if let some tag := lit.tag then
      discard <| push byte (some string) (some .tag) .identifier span.start
        (span.start + tag.length)
    lit.parts.forM (StringPart.lower byte string)

/-- Add a path.  The root of the program has no node. -/
def Path.lower (parent : Nat) (span : Span) (p : Path) : Lowering Unit := do
  let path ← node byte parent none .path span
  if let .ident first := p.root then
    first.lower byte path .firstSeg
  p.segments.forM (Ident.lower byte path .seg)

mutual

/-- Add an expression in a field. -/
def Expr.lower (parent : Nat) (field : Option Field) : Expr → Lowering Unit
  | ⟨kind, span⟩ => kind.lower parent field span

/-- Add a form of expression in a field. -/
def ExprKind.lower (parent : Nat) (field : Option Field) (span : Span) :
    ExprKind → Lowering Unit
  | .bool _ => discard <| node byte parent field .boolExpr span
  | .literal lit => do
    let self ← node byte parent field .litExpr span
    lit.lower byte self span
  | .null => discard <| node byte parent field .nullExpr span
  | .paren inner => do
    let self ← node byte parent field .parenExpr span
    inner.lower self none
  | .path path => do
    let self ← node byte parent field .pathExpr span
    path.lower byte self span
  | .binary lhs op rhs => do
    let self ← node byte parent field .binaryExpr span
    lhs.lower self (some .lhs)
    discard <| node byte self (some .op) op.node.nodeKind op.span
    rhs.lower self (some .rhs)
  | .assign lhs rhs => do
    let self ← node byte parent field .assignExpr span
    lhs.lower self (some .lhs)
    rhs.lower self (some .rhs)
  | .unary op operand => do
    let self ← node byte parent field .leftUnaryExpr span
    discard <| node byte self (some .op) op.node.nodeKind op.span
    operand.lower self none
  | .deref operand => do
    let self ← node byte parent field .rightUnaryExpr span
    operand.lower self none
    -- the operator is the last token
    discard <| push byte (some self) (some .deref) .deref (span.stop - 2) span.stop
  | .borrow mutSpan operand => do
    let self ← node byte parent field .borrowExpr span
    if let some mutSpan := mutSpan then
      discard <| node byte self none .mutSpec mutSpan
    operand.lower self none
  | .call callee args => do
    let self ← node byte parent field .callExpr span
    callee.lower self (some .callee)
    args.lower self
  | .field base name => do
    let self ← node byte parent field .fieldExpr span
    base.lower self none
    name.lower byte self .member
  | .conditional cond consequent alternative => do
    let self ← node byte parent field .ifExpr span
    cond.lower self (some .cond)
    consequent.lower self (some .thenBranch)
    lowerAlternative self alternative
  | .ret value => do
    let self ← node byte parent field .returnExpr span
    lowerOption self none value
  | .brk label value => do
    let self ← node byte parent field .breakExpr span
    if let some label := label then
      label.lower byte self .label
    lowerOption self none value
  | .cont label => do
    let self ← node byte parent field .continueExpr span
    if let some label := label then
      label.lower byte self .label
  | .block body => do
    let self ← node byte parent field .blockExpr span
    body.lower self (some .block)
  | .whileLoop cond body => do
    let self ← node byte parent field .whileExpr span
    cond.lower self (some .cond)
    body.lower self (some .body)
  | .forLoop var iterator body => do
    let self ← node byte parent field .forExpr span
    var.lower byte self .var
    iterator.lower self (some .iterator)
    body.lower self (some .body)
  | .loop body => do
    let self ← node byte parent field .loopExpr span
    body.lower self (some .body)
  | .labeled label inner => do
    let self ← node byte parent field .labeledExpr span
    label.lower byte self .label
    -- a labeled block is a bare block
    match inner with
    | ⟨.block body, _⟩ => body.lower self none
    | inner => inner.lower self none
  | .error => discard <| node byte parent field .error span

def Arguments.lower (parent : Nat) : Arguments → Lowering Unit
  | ⟨args, span⟩ => do
    let self ← node byte parent (some .args) .arguments span
    lowerExprs self args

/-- Add the other case of a conditional, if there is one. -/
def lowerAlternative (parent : Nat) : Option Alternative → Lowering Unit
  | none => return
  | some (.chain conditional) => conditional.lower parent (some .elseBranch)
  | some (.block body) => body.lower parent (some .elseBranch)

/-- Add a block in a field. -/
def Block.lower (parent : Nat) (field : Option Field) : Block → Lowering Unit
  | ⟨stmts, lastExpr, span⟩ => do
    let self ← node byte parent field .block span
    lowerStmts self stmts
    lowerOption self (some .lastExpr) lastExpr

def lowerOption (parent : Nat) (field : Option Field) : Option Expr → Lowering Unit
  | none => return
  | some e => e.lower parent field

/-- Add expressions without a field. -/
def lowerExprs (parent : Nat) : List Expr → Lowering Unit
  | [] => return
  | e :: rest => do
    e.lower parent none
    lowerExprs parent rest

/-- Add statements. -/
def lowerStmts (parent : Nat) : List Stmt → Lowering Unit
  | [] => return
  | ⟨e, _⟩ :: rest => do
    e.lower parent (some .stmt)
    lowerStmts parent rest

end

def TypeExpr.lower (parent : Nat) : TypeExpr → Lowering Unit
  | primitive type =>
    discard <| Lowering.node byte parent (some .typeexpr) .primitiveType type.span
  | expr e => e.lower byte parent (some .typeexpr)

/-- Add an item. -/
def Item.lower (parent : Nat) (item : Item) : Lowering Unit := do
  let self ← node byte parent none .globalDefItem item.span
  item.definition.name.lower byte self .name
  if let some type := item.definition.type then
    type.lower byte self
  item.definition.value.lower byte self (some .value)

/-- The nodes of a source of some chars, whatever could be parsed of it. -/
def lowerSource (chars : Nat) (file : Option SourceFile) : Arena :=
  let lowering : Lowering Unit := do
    let root ← push byte none none .sourceFile 0 chars
    if let some file := file then
      file.items.forM (Item.lower byte root)
  (lowering.run #[]).2

end LunSyntax
