import LunSyntax.Ast
import LunSyntax.Token.Document

/-!
# Syntax as documents

The written form of expressions, definitions and files.  Spans are strings; of the parts which
may be missing only the type of a definition is left out, the others are null.
-/

set_option autoImplicit false

namespace LunSyntax

open Document (ofList ofOption)

def Span.toDocument (s : Span) : Document := .str s.text

def Ident.toDocument (i : Ident) : Document :=
  .record [("name", .str i.name), ("span", i.span.toDocument)]

def UnOp.caseName : UnOp → String
  | neg => "Neg"
  | not => "Not"

def BinOp.caseName : BinOp → String
  | mul => "Mul" | div => "Div" | mod => "Mod" | add => "Add" | sub => "Sub" | shl => "Shl"
  | shr => "Shr" | bitAnd => "BitAnd" | bitXor => "BitXor" | bitOr => "BitOr" | eq => "Eq"
  | ne => "Ne" | gt => "Gt" | lt => "Lt" | gte => "Gte" | lte => "Lte" | and => "And" | or => "Or"

/-- A value with its span, where the value is known by name. -/
def Spanned.toDocument {α : Type} (name : α → String) (s : Spanned α) : Document :=
  .record [("node", .str (name s.node)), ("span", s.span.toDocument)]

def PathRoot.toDocument : PathRoot → Document
  | orb span => .variant "Orb" span.toDocument
  | ident name => .variant "Ident" name.toDocument

def Path.toDocument (p : Path) : Document :=
  .record [("root", p.root.toDocument), ("segments", ofList Ident.toDocument p.segments)]

mutual

def Expr.toDocument : Expr → Document
  | ⟨kind, span⟩ => .record [("kind", kind.toDocument), ("span", span.toDocument)]

/-- A form of expression as a variant. -/
def ExprKind.toDocument : ExprKind → Document
  | .bool value => .variant "Bool" (.bool value)
  | .literal lit => .variant "Literal" lit.toDocument
  | .null => .str "Null"
  | .paren inner => .variant "Paren" inner.toDocument
  | .path path => .variant "Path" path.toDocument
  | .binary lhs op rhs =>
    .variant "Binary" (.record [("lhs", lhs.toDocument), ("op", op.toDocument BinOp.caseName),
      ("rhs", rhs.toDocument)])
  | .assign lhs rhs =>
    .variant "Assign" (.record [("lhs", lhs.toDocument), ("rhs", rhs.toDocument)])
  | .unary op operand =>
    .variant "Unary" (.record [("op", op.toDocument UnOp.caseName),
      ("expr", operand.toDocument)])
  | .deref operand => .variant "Deref" operand.toDocument
  | .borrow mutSpan operand =>
    .variant "Borrow" (.record [("mut_span", ofOption Span.toDocument mutSpan),
      ("expr", operand.toDocument)])
  | .call callee args =>
    .variant "Call" (.record [("callee", callee.toDocument), ("args", args.toDocument)])
  | .field base name =>
    .variant "Field" (.record [("expr", base.toDocument), ("field", name.toDocument)])
  | .conditional cond consequent alternative =>
    .variant "If" (.record [("cond", cond.toDocument), ("then", consequent.toDocument),
      ("els", alternativeToDocument alternative)])
  | .ret value => .variant "Return" (optionToDocument value)
  | .brk label value =>
    .variant "Break" (.record [("label", ofOption Ident.toDocument label),
      ("value", optionToDocument value)])
  | .cont label => .variant "Continue" (ofOption Ident.toDocument label)
  | .block body => .variant "Block" body.toDocument
  | .whileLoop cond body =>
    .variant "While" (.record [("cond", cond.toDocument), ("body", body.toDocument)])
  | .forLoop var iterator body =>
    .variant "For" (.record [("var", var.toDocument), ("iterator", iterator.toDocument),
      ("body", body.toDocument)])
  | .loop body => .variant "Loop" (.record [("body", body.toDocument)])
  | .labeled label inner =>
    .variant "Labeled" (.record [("label", label.toDocument), ("expr", inner.toDocument)])
  | .error => .str "Error"

def Arguments.toDocument : Arguments → Document
  | ⟨args, span⟩ =>
    .record [("args", .list (exprsToDocuments args)), ("span", span.toDocument)]

/-- The other case of a conditional as a variant, or null. -/
def alternativeToDocument : Option Alternative → Document
  | none => .null
  | some (.chain conditional) => .variant "If" conditional.toDocument
  | some (.block body) => .variant "Block" body.toDocument

def Block.toDocument : Block → Document
  | ⟨stmts, lastExpr, span⟩ =>
    .record [("stmts", .list (stmtsToDocuments stmts)),
      ("last_expr", optionToDocument lastExpr), ("span", span.toDocument)]

def optionToDocument : Option Expr → Document
  | none => .null
  | some e => e.toDocument

def exprsToDocuments : List Expr → List Document
  | [] => []
  | e :: rest => e.toDocument :: exprsToDocuments rest

def stmtsToDocuments : List Stmt → List Document
  | [] => []
  | ⟨e, semicolon⟩ :: rest =>
    .record [("expr", e.toDocument), ("semicolon", .bool semicolon)] :: stmtsToDocuments rest

end

def TypeExpr.toDocument : TypeExpr → Document
  | primitive type => .variant "Primitive" (type.toDocument PrimitiveType.caseName)
  | expr e => .variant "Expr" e.toDocument

/-- A definition as a record. -/
def GlobalDef.toDocument (d : GlobalDef) : Document :=
  .record ([("name", d.name.toDocument)]
    ++ (match d.type with
      | some type => [("ty", type.toDocument)]
      | none => [])
    ++ [("mutable", .bool d.mutable), ("value", d.value.toDocument),
      ("semicolon", .bool d.semicolon)])

def Item.toDocument (item : Item) : Document :=
  .record [("kind", .variant "GlobalDef" item.definition.toDocument),
    ("span", item.span.toDocument)]

def SourceFile.toDocument (file : SourceFile) : Document :=
  .record [("items", ofList Item.toDocument file.items), ("span", file.span.toDocument)]

end LunSyntax
