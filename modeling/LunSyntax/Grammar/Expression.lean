import LunSyntax.Grammar.Combinators

/-!
# The grammar of expressions

From loose to tight: assignments (grouped to the right), ten levels of binary operators (grouped
to the left), operators before an operand, those after it, and primary expressions.

The grammar is recursive: parentheses, arguments, blocks and conditions hold expressions again.
Each rule is written for given parsers of what it holds, and `exprWithin`, `blockWithin` and
`conditionalWithin` tie the knot for a nesting up to a depth.  Since a rule reads a token before
it goes deeper, the number of tokens is depth enough; `expr` and `typeExpr` take it from the
cursor.
-/

set_option autoImplicit false

namespace LunSyntax.Grammar

open LunSyntax.Parser (Delimiters)
open LunSyntax.Combinators

variable {P : Type → Type} [Combinators P]

/-! ## Tokens -/

def keyword (word : String) : P Unit := just (.keyword word)

def control (c : Char) : P Unit := just (.control c)

def digraph (op : Digraph) : P Unit := just (.digraph op)

/-- A name. -/
def ident : P Ident :=
  withSpan (fun name span => ⟨name, span⟩) <|
    token (fun t => match t.node with
      | .ident name => some name
      | _ => none) [some (.ident "")]

def parens : Delimiters := ⟨.control '(', .control ')'⟩

def braces : Delimiters := ⟨.control '{', .control '}'⟩

/-! ## Statements and blocks -/

/-- The message where a semicolon is missing after an expression. -/
def missingSemicolon (e : Expr) : Span × String :=
  (e.span.atStop, "expected `;` after expression")

/-- Split the expressions of a block into its statements and its value: the last expression, if no
semicolon follows.  Before that only block-like expressions go without one. -/
def splitStmts : List (Expr × Bool) → List Stmt × Option Expr × List (Span × String)
  | [] => ([], none, [])
  | [(e, false)] => ([], some e, [])
  | (e, semicolon) :: rest =>
    let (stmts, lastExpr, messages) := splitStmts rest
    (⟨e, semicolon⟩ :: stmts, lastExpr,
      if !semicolon && e.kind.needsSemicolon then missingSemicolon e :: messages else messages)

/-- Blocks and loops, which may end a statement without a semicolon. -/
def unlabeled (expr : P Expr) (block : P Block) : P Expr :=
  withSpan Expr.mk <| choice [
    ExprKind.block <$> block,
    do
      keyword "while"
      let cond ← expr
      let body ← block
      return .whileLoop cond body,
    do
      keyword "for"
      let var ← ident
      keyword "in"
      let iterator ← expr
      let body ← block
      return .forLoop var iterator body,
    do
      keyword "loop"
      let body ← block
      return .loop body]

/-- Blocks and loops, with or without a label. -/
def blockLike (expr : P Expr) (block : P Block) : P Expr :=
  let labeled := withSpan Expr.mk do
    let label ← ident
    control ':'
    let inner ← unlabeled expr block
    return .labeled label inner
  either labeled (unlabeled expr block)

/-- An expression in place of a statement, and whether a semicolon follows.  A block-like one ends
the statement, so `loop {} -1` is a loop and another expression. -/
def stmt (expr : P Expr) (block : P Block) : P (Expr × Bool) := do
  let e ← either (blockLike expr block) expr
  let semicolon ← optional (control ';')
  return (e, semicolon.isSome)

/-- Statements between braces. -/
def blockOf (expr : P Expr) (block : P Block) : P Block :=
  recoverDelimited braces parens
    (fun span => ⟨[⟨⟨.error, span.inner⟩, false⟩], none, span⟩) <|
    check (fun stmts span =>
        let (stmts, lastExpr, messages) := splitStmts stmts
        (⟨stmts, lastExpr, span⟩, messages)) do
      control '{'
      let stmts ← many (stmt expr block)
      control '}'
      return stmts

/-! ## Primary expressions -/

/-- A conditional and its alternatives. -/
def conditionalOf (expr : P Expr) (block : P Block) (conditional : P Expr) :
    P Expr :=
  withSpan Expr.mk do
    keyword "if"
    let cond ← expr
    let consequent ← block
    let alternative ← optional do
      keyword "else"
      either (Alternative.chain <$> conditional) (Alternative.block <$> block)
    return .conditional cond consequent alternative

/-- A label after `break` or `continue`. -/
def labelRef : P Ident := do
  control ':'
  ident

/-- A path. -/
def path : P Path := do
  let root ← either (withSpan (fun _ span => PathRoot.orb span) (keyword "orb"))
    (PathRoot.ident <$> ident)
  let segments ← many do
    digraph .pathSep
    ident
  return ⟨root, segments⟩

/-- The forms which are neither blocks, loops nor conditionals. -/
def simple (expr : P Expr) : P Expr :=
  withSpan Expr.mk <| choice [
    token (fun t => match t.node with
      | .literal lit => some (.literal lit)
      | _ => none) [],
    either ((fun _ => ExprKind.bool true) <$> keyword "true")
      ((fun _ => ExprKind.bool false) <$> keyword "false"),
    (fun _ => ExprKind.null) <$> keyword "null",
    recoverDelimited parens braces (fun _ => .error) do
      control '('
      let inner ← expr
      control ')'
      return .paren inner,
    do
      keyword "return"
      let value ← optional expr
      return .ret value,
    do
      keyword "break"
      let label ← optional labelRef
      let value ← optional expr
      return .brk label value,
    do
      keyword "continue"
      let label ← optional labelRef
      return .cont label,
    ExprKind.path <$> path]

/-- A primary expression.  Where a colon would be mistaken for that of a label, there are no
labels. -/
def primary (expr : P Expr) (block : P Block) (conditional : P Expr)
    (labels : Bool) : P Expr :=
  choice [if labels then blockLike expr block else unlabeled expr block, conditional, simple expr]

/-! ## Operators -/

/-- What may follow an operand. -/
inductive Suffix where
  | call (args : Arguments)
  | field (name : Ident)
  | deref

/-- What may precede an operand.  `&&` is one token and two borrows, of which the inner one may be
mutable. -/
inductive Lead where
  | unary (op : UnOp)
  | borrow (mutSpan : Option Span)
  | doubleBorrow (mutSpan : Option Span)

/-- The arguments of a call. -/
def arguments (expr : P Expr) : P Arguments :=
  recoverDelimited parens braces (fun span => ⟨[⟨.error, span.inner⟩], span⟩) <|
    withSpan Arguments.mk do
      control '('
      let args ← sepBy expr (control ',')
      control ')'
      return args

/-- What follows an operand, with its span. -/
def suffix (expr : P Expr) : P (Suffix × Span) :=
  withSpan Prod.mk <| choice [
    Suffix.call <$> arguments expr,
    do
      control '.'
      let name ← ident
      return .field name,
    (fun _ => Suffix.deref) <$> digraph .deref]

/-- An operand with one more suffix. -/
def joinSuffix (e : Expr) : Suffix × Span → P Expr
  | (suffix, span) => do
    let full ← merge e.span span
    match suffix with
    | .call args => return ⟨.call e args, full⟩
    | .field name => return ⟨.field e name, full⟩
    | .deref => return ⟨.deref e, full⟩

/-- A primary expression and what follows it. -/
def postfixed (primary expr : P Expr) : P Expr := do
  let e ← primary
  let suffixes ← many (suffix expr)
  suffixes.foldlM joinSuffix e

def mutSpan : P (Option Span) :=
  optional (withSpan (fun _ span => span) (keyword "mut"))

/-- What precedes an operand, with its span. -/
def lead : P (Lead × Span) :=
  withSpan Prod.mk <| choice [
    (fun _ => Lead.unary .neg) <$> control '-',
    (fun _ => Lead.unary .not) <$> control '!',
    do
      control '&'
      let mutSpan ← mutSpan
      return .borrow mutSpan,
    do
      digraph .and
      let mutSpan ← mutSpan
      return .doubleBorrow mutSpan]

/-- An operand with one more lead.  The inner of two borrows starts at the second char. -/
def joinLead : Lead × Span → Expr → P Expr
  | (lead, span), e => do
    let full ← merge span e.span
    match lead with
    | .unary op => return ⟨.unary ⟨op, span⟩ e, full⟩
    | .borrow mutSpan => return ⟨.borrow mutSpan e, full⟩
    | .doubleBorrow mutSpan =>
      let start ← nextOffset span.start
      return ⟨.borrow none ⟨.borrow mutSpan e, { full with start }⟩, full⟩

/-- An operand with its leads and suffixes. -/
def unary (primary expr : P Expr) : P Expr := do
  let leads ← many lead
  let e ← postfixed primary expr
  leads.foldrM joinLead e

/-- One of some operators, with its span. -/
def operator (op : P BinOp) : P (Spanned BinOp) :=
  withSpan Spanned.mk op

/-- An operator as its token. -/
def binOp (op : BinOp) : P BinOp :=
  (fun _ => op) <$> just op.token

/-- Two operands and the operator between them. -/
def joinBinary (lhs : Expr) : Spanned BinOp × Expr → P Expr
  | (op, rhs) => do
    let full ← merge lhs.span rhs.span
    return ⟨.binary lhs op rhs, full⟩

/-- Operands of the next tighter level with operators of one level between them. -/
def binary (operand : P Expr) (op : P BinOp) : P Expr := do
  let first ← operand
  let rest ← many do
    let op ← operator op
    let rhs ← operand
    return (op, rhs)
  rest.foldlM joinBinary first

/-- The levels of binary operators, from tight to loose. -/
def levels : List (P BinOp) :=
  [choice [binOp .mul, binOp .div, binOp .mod],
    either (binOp .add) (binOp .sub),
    either (binOp .shl) (binOp .shr),
    binOp .bitAnd,
    binOp .bitXor,
    binOp .bitOr,
    either (binOp .eq) (binOp .ne),
    choice [binOp .gt, binOp .gte, binOp .lt, binOp .lte],
    binOp .and,
    binOp .or]

/-- All operators over primary expressions; `expr` is for the arguments of calls. -/
def operators (primary expr : P Expr) : P Expr :=
  levels.foldl binary (unary primary expr)

def joinAssign (lhs rhs : Expr) : P Expr := do
  let full ← merge lhs.span rhs.span
  return ⟨.assign lhs rhs, full⟩

/-- Group `a = b = c` as `a = (b = c)`. -/
def joinAssigns : Expr → List Expr → P Expr
  | first, [] => return first
  | first, next :: rest => do
    let rhs ← joinAssigns next rest
    joinAssign first rhs

/-- Operands with `=` between them. -/
def assignment (operand : P Expr) : P Expr := do
  let first ← operand
  let rest ← many do
    control '='
    operand
  joinAssigns first rest

/-! ## The knot -/

mutual

/-- Expressions nested up to a depth. -/
def exprWithin : Nat → P Expr
  | 0 => fail []
  | depth + 1 =>
    let expr := deferred fun _ => exprWithin depth
    let block := blockOf expr (deferred fun _ => blockWithin depth)
    let conditional := conditionalOf expr block (deferred fun _ => conditionalWithin depth)
    assignment (operators (primary expr block conditional true) expr)

/-- Blocks nested up to a depth. -/
def blockWithin : Nat → P Block
  | 0 => fail []
  | depth + 1 => blockOf (deferred fun _ => exprWithin depth) (deferred fun _ => blockWithin depth)

/-- Conditionals nested up to a depth. -/
def conditionalWithin : Nat → P Expr
  | 0 => fail []
  | depth + 1 =>
    let expr := deferred fun _ => exprWithin depth
    conditionalOf expr (blockOf expr (deferred fun _ => blockWithin depth))
      (deferred fun _ => conditionalWithin depth)

end

/-- A type nested up to a depth: a builtin one or an expression without assignment.  No label
starts a type, since its colon would be taken for the one before the value. -/
def typeExprWithin : Nat → P TypeExpr
  | 0 => fail []
  | depth + 1 =>
    let primitive := token (fun t => match t.node with
      | .keyword word => (PrimitiveType.ofText? word).map fun type =>
        TypeExpr.primitive ⟨type, t.span⟩
      | _ => none) []
    let expr := deferred fun _ => exprWithin depth
    let block := blockOf expr (deferred fun _ => blockWithin depth)
    let conditional := conditionalOf expr block (deferred fun _ => conditionalWithin depth)
    either primitive (TypeExpr.expr <$> operators (primary expr block conditional false) expr)

def expr : P Expr := deferred fun left => exprWithin (left + 1)

def typeExpr : P TypeExpr := deferred fun left => typeExprWithin (left + 1)

end LunSyntax.Grammar
