import LunSyntax.Proofs.Grammar.Derivation

/-!
# Canonical programs

Syntax and the tokens it is written with, the other way round than in a parser.

* `SourceFile.render`: the tokens of a file.  Constants without a type are written with `::`, there
  is no comma after the last argument, and each borrow has a `&` of its own;
* `SourceFile.canonical`: whether a file is one that can be written so, with parentheses wherever
  they are needed;
* `SourceFile.eraseSpans`: a file without regard to where its parts were written.
-/

set_option autoImplicit false

namespace LunSyntax

/-! ## Rendering -/

mutual

/-- The tokens of an expression. -/
def Expr.render : Expr → List TokenKind
  | ⟨kind, _⟩ => kind.render

/-- The tokens of a form of expression. -/
def ExprKind.render : ExprKind → List TokenKind
  | .bool value => [.keyword (if value then "true" else "false")]
  | .literal lit => [.literal lit]
  | .null => [.keyword "null"]
  | .paren inner => .control '(' :: inner.render ++ [.control ')']
  | .path path => path.tokens
  | .binary lhs op rhs => lhs.render ++ op.node.token :: rhs.render
  | .assign lhs rhs => lhs.render ++ .control '=' :: rhs.render
  | .unary op operand => op.node.token :: operand.render
  | .borrow mutSpan operand => .control '&' :: mutTokens mutSpan ++ operand.render
  | .deref operand => operand.render ++ [.digraph .deref]
  | .call callee args => callee.render ++ args.render
  | .field base name => base.render ++ [.control '.', name.token]
  | .conditional cond consequent alternative =>
    .keyword "if" :: cond.render ++ consequent.render ++ renderAlternative alternative
  | .ret value => .keyword "return" :: renderOption value
  | .brk label value => .keyword "break" :: labelTokens label ++ renderOption value
  | .cont label => .keyword "continue" :: labelTokens label
  | .block body => body.render
  | .whileLoop cond body => .keyword "while" :: cond.render ++ body.render
  | .forLoop var iterator body =>
    .keyword "for" :: var.token :: .keyword "in" :: iterator.render ++ body.render
  | .loop body => .keyword "loop" :: body.render
  | .labeled label inner => label.token :: .control ':' :: inner.render
  | .error => []

def Arguments.render : Arguments → List TokenKind
  | ⟨[], _⟩ => [.control '(', .control ')']
  | ⟨arg :: rest, _⟩ => .control '(' :: arg.render ++ renderArgs rest ++ [.control ')']

/-- The tokens of arguments, each after a comma. -/
def renderArgs : List Expr → List TokenKind
  | [] => []
  | arg :: rest => .control ',' :: arg.render ++ renderArgs rest

/-- The tokens of what a conditional does otherwise. -/
def renderAlternative : Option Alternative → List TokenKind
  | none => []
  | some (.chain conditional) => .keyword "else" :: conditional.render
  | some (.block body) => .keyword "else" :: body.render

def Block.render : Block → List TokenKind
  | ⟨stmts, lastExpr, _⟩ =>
    .control '{' :: (renderStmts stmts ++ renderOption lastExpr) ++ [.control '}']

def renderStmts : List Stmt → List TokenKind
  | [] => []
  | ⟨e, semicolon⟩ :: rest => e.render ++ semicolonTokens semicolon ++ renderStmts rest

def renderOption : Option Expr → List TokenKind
  | none => []
  | some e => e.render

end

def TypeExpr.render : TypeExpr → List TokenKind
  | primitive type => [.keyword type.node.text]
  | expr e => e.render

/-- The tokens between the name of a definition and its value. -/
def renderHeader : Option TypeExpr → Bool → List TokenKind
  | none, false => [.digraph .pathSep]
  | none, true => [.control ':', .control '=']
  | some type, mutable => .control ':' :: type.render ++ [separatorToken mutable]

def GlobalDef.render (d : GlobalDef) : List TokenKind :=
  d.name.token :: renderHeader d.type d.mutable ++ d.value.render ++ semicolonTokens d.semicolon

def SourceFile.render (file : SourceFile) : List TokenKind :=
  file.items.flatMap fun item => item.definition.render

/-! ## Canonical syntax -/

/-- Whether an expression can stand in place of a statement: if it starts with a block or a loop,
it is no more than that. -/
def Expr.startsPlain (e : Expr) : Bool := !e.leftmost.kind.isBlockLike || e.kind.isBlockLike

mutual

/-- Whether an expression is canonical.  `jumps` tells whether it may be a `return` or a `break`,
which take all that follows for their value. -/
def Expr.canonical (jumps : Bool) : Expr → Bool
  | ⟨kind, _⟩ => kind.canonical jumps

/-- Whether a form of expression is canonical: nothing in it was given up, and its operands hold
together tightly enough. -/
def ExprKind.canonical (jumps : Bool) : ExprKind → Bool
  | .bool _ | .literal _ | .null | .path _ | .cont _ => true
  | .paren inner => inner.canonical true
  | .binary lhs op rhs =>
    op.node.level ≤ lhs.level && op.node.level < rhs.level &&
      lhs.canonical false && rhs.canonical false
  | .assign lhs rhs => 1 ≤ lhs.level && lhs.canonical false && rhs.canonical false
  | .unary _ operand => 11 ≤ operand.level && operand.canonical false
  | .borrow _ operand => 11 ≤ operand.level && operand.canonical false
  | .deref operand => 12 ≤ operand.level && operand.canonical false
  | .call callee args => 12 ≤ callee.level && callee.canonical false && args.canonical
  | .field base _ => 12 ≤ base.level && base.canonical false
  | .conditional cond consequent alternative =>
    cond.canonical false && consequent.canonical && canonicalAlternative alternative
  | .ret value => jumps && canonicalOption value
  | .brk _ value => jumps && canonicalOption value
  | .block body => body.canonical
  | .whileLoop cond body => cond.canonical false && body.canonical
  | .forLoop _ iterator body => iterator.canonical false && body.canonical
  | .loop body => body.canonical
  | .labeled _ inner => inner.kind.isUnlabeled && inner.canonical false
  | .error => false

/-- Whether the arguments of a call are canonical. -/
def Arguments.canonical : Arguments → Bool
  | ⟨args, _⟩ => canonicalArgs args

/-- Whether each of some arguments is canonical. -/
def canonicalArgs : List Expr → Bool
  | [] => true
  | arg :: rest => arg.canonical true && canonicalArgs rest

/-- Whether what a conditional does otherwise is canonical. -/
def canonicalAlternative : Option Alternative → Bool
  | none => true
  | some (.chain conditional) => conditional.kind.isConditional && conditional.canonical false
  | some (.block body) => body.canonical

/-- Whether a block is canonical.  Without a value, its last statement has a semicolon. -/
def Block.canonical : Block → Bool
  | ⟨stmts, lastExpr, _⟩ =>
    canonicalStmts stmts && canonicalOption lastExpr && lastExpr.all Expr.startsPlain &&
      (lastExpr.isSome || stmts.getLast?.all Stmt.semicolon)

/-- Whether each of some statements is canonical.  Only block-like ones go without a semicolon. -/
def canonicalStmts : List Stmt → Bool
  | [] => true
  | ⟨e, semicolon⟩ :: rest =>
    e.canonical true && e.startsPlain && (semicolon || e.kind.isBlockLike) && canonicalStmts rest

/-- Whether an expression, if there is one, is canonical. -/
def canonicalOption : Option Expr → Bool
  | none => true
  | some e => e.canonical true

end

/-- Whether a type is canonical: a builtin one or a path. -/
def TypeExpr.canonical : TypeExpr → Bool
  | primitive _ => true
  | expr ⟨.path _, _⟩ => true
  | expr _ => false

/-- Whether a definition is canonical.  Only a block-like value goes without a semicolon. -/
def GlobalDef.canonical (d : GlobalDef) : Bool :=
  d.type.all TypeExpr.canonical && d.value.canonical true &&
    (d.semicolon || d.value.kind.isBlockLike)

/-- Whether all definitions of a file are canonical. -/
def SourceFile.canonical (file : SourceFile) : Bool :=
  file.items.all fun item => item.definition.canonical

/-! ## Syntax without spans -/

/-- The span of a part which was not written anywhere. -/
def noSpan : Span := ⟨0, 0, 0⟩

def Spanned.eraseSpan {α : Type} (s : Spanned α) : Spanned α := ⟨s.node, noSpan⟩

def Ident.eraseSpan (name : Ident) : Ident := ⟨name.name, noSpan⟩

/-- A path without spans. -/
def Path.eraseSpans (p : Path) : Path :=
  ⟨match p.root with
    | .orb _ => .orb noSpan
    | .ident name => .ident name.eraseSpan,
    p.segments.map Ident.eraseSpan⟩

mutual

/-- An expression without spans. -/
def Expr.eraseSpans : Expr → Expr
  | ⟨kind, _⟩ => ⟨kind.eraseSpans, noSpan⟩

/-- A form of expression without spans. -/
def ExprKind.eraseSpans : ExprKind → ExprKind
  | .bool value => .bool value
  | .literal lit => .literal lit
  | .null => .null
  | .paren inner => .paren inner.eraseSpans
  | .path path => .path path.eraseSpans
  | .binary lhs op rhs => .binary lhs.eraseSpans op.eraseSpan rhs.eraseSpans
  | .assign lhs rhs => .assign lhs.eraseSpans rhs.eraseSpans
  | .unary op operand => .unary op.eraseSpan operand.eraseSpans
  | .borrow mutSpan operand => .borrow (mutSpan.map fun _ => noSpan) operand.eraseSpans
  | .deref operand => .deref operand.eraseSpans
  | .call callee args => .call callee.eraseSpans args.eraseSpans
  | .field base name => .field base.eraseSpans name.eraseSpan
  | .conditional cond consequent alternative =>
    .conditional cond.eraseSpans consequent.eraseSpans (eraseAlternative alternative)
  | .ret value => .ret (eraseOption value)
  | .brk label value => .brk (label.map Ident.eraseSpan) (eraseOption value)
  | .cont label => .cont (label.map Ident.eraseSpan)
  | .block body => .block body.eraseSpans
  | .whileLoop cond body => .whileLoop cond.eraseSpans body.eraseSpans
  | .forLoop var iterator body =>
    .forLoop var.eraseSpan iterator.eraseSpans body.eraseSpans
  | .loop body => .loop body.eraseSpans
  | .labeled label inner => .labeled label.eraseSpan inner.eraseSpans
  | .error => .error

def Arguments.eraseSpans : Arguments → Arguments
  | ⟨args, _⟩ => ⟨eraseArgs args, noSpan⟩

def eraseArgs : List Expr → List Expr
  | [] => []
  | arg :: rest => arg.eraseSpans :: eraseArgs rest

def eraseAlternative : Option Alternative → Option Alternative
  | none => none
  | some (.chain conditional) => some (.chain conditional.eraseSpans)
  | some (.block body) => some (.block body.eraseSpans)

def Block.eraseSpans : Block → Block
  | ⟨stmts, lastExpr, _⟩ => ⟨eraseStmts stmts, eraseOption lastExpr, noSpan⟩

def eraseStmts : List Stmt → List Stmt
  | [] => []
  | ⟨e, semicolon⟩ :: rest => ⟨e.eraseSpans, semicolon⟩ :: eraseStmts rest

def eraseOption : Option Expr → Option Expr
  | none => none
  | some e => some e.eraseSpans

end

def TypeExpr.eraseSpans : TypeExpr → TypeExpr
  | primitive type => .primitive type.eraseSpan
  | expr e => .expr e.eraseSpans

def GlobalDef.eraseSpans (d : GlobalDef) : GlobalDef :=
  ⟨d.name.eraseSpan, d.type.map TypeExpr.eraseSpans, d.mutable, d.value.eraseSpans, d.semicolon⟩

def SourceFile.eraseSpans (file : SourceFile) : SourceFile :=
  ⟨file.items.map fun item => ⟨item.definition.eraseSpans, noSpan⟩, noSpan⟩

end LunSyntax
