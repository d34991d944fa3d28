import LunSyntax.Token

/-!
# Syntax

What a source means to the grammar: a `SourceFile` is a list of global definitions, and nearly
all else is an `Expr`, since statements, blocks and loops have values too.  Every part carries
the span it was read from.

`ExprKind.error` stands for input that could not be parsed; only a parse that reports errors has
it.
-/

set_option autoImplicit false

namespace LunSyntax

/-- A value along with where it was written. -/
structure Spanned (α : Type) where
  node : α
  span : Span
  deriving DecidableEq, Repr

/-- A name, such as of a definition, a label or a segment of a path. -/
structure Ident where
  name : String
  span : Span
  deriving DecidableEq, Repr

/-! ## Operators -/

inductive UnOp where
  | neg | not
  deriving DecidableEq, Repr

namespace UnOp

def all : List UnOp := [neg, not]

def text : UnOp → String
  | neg => "-"
  | not => "!"

def ofText? (text : String) : Option UnOp := all.find? (·.text == text)

end UnOp

inductive BinOp where
  | mul | div | mod | add | sub | shl | shr | bitAnd | bitXor | bitOr
  | eq | ne | gt | lt | gte | lte | and | or
  deriving DecidableEq, Repr

namespace BinOp

def all : List BinOp :=
  [mul, div, mod, add, sub, shl, shr, bitAnd, bitXor, bitOr, eq, ne, gt, lt, gte, lte, and, or]

def text : BinOp → String
  | mul => "*" | div => "/" | mod => "%" | add => "+" | sub => "-" | shl => "<<" | shr => ">>"
  | bitAnd => "&" | bitXor => "^" | bitOr => "|" | eq => "==" | ne => "!=" | gt => ">"
  | lt => "<" | gte => ">=" | lte => "<=" | and => "&&" | or => "||"

def ofText? (text : String) : Option BinOp := all.find? (·.text == text)

/-- The token an operator is. -/
def token : BinOp → TokenKind
  | mul => .control '*' | div => .control '/' | mod => .control '%'
  | add => .control '+' | sub => .control '-'
  | shl => .digraph .shl | shr => .digraph .shr
  | bitAnd => .control '&' | bitXor => .control '^' | bitOr => .control '|'
  | eq => .digraph .eq | ne => .digraph .ne
  | gt => .control '>' | lt => .control '<' | gte => .digraph .gte | lte => .digraph .lte
  | and => .digraph .and | or => .digraph .or

end BinOp

/-! ## Paths -/

/-- Where a path starts: at the root of the program or at a name in scope. -/
inductive PathRoot where
  | orb (span : Span)
  | ident (name : Ident)
  deriving DecidableEq, Repr

/-- A path such as `a`, `orb::a` or `a::b::c`. -/
structure Path where
  root : PathRoot
  segments : List Ident
  deriving DecidableEq, Repr

/-- The path as written. -/
def Path.text (p : Path) : String :=
  let root := match p.root with
    | .orb _ => "orb"
    | .ident name => name.name
  p.segments.foldl (fun acc segment => acc ++ "::" ++ segment.name) root

/-! ## Expressions -/

mutual

/-- Anything that has a value. -/
structure Expr where
  kind : ExprKind
  span : Span

/-- The forms of expressions. -/
inductive ExprKind where
  | bool (value : Bool)
  | literal (lit : Literal)
  | null
  | paren (inner : Expr)
  | path (path : Path)
  | binary (lhs : Expr) (op : Spanned BinOp) (rhs : Expr)
  | assign (lhs rhs : Expr)
  | unary (op : Spanned UnOp) (operand : Expr)
  | deref (operand : Expr)
  | borrow (mutSpan : Option Span) (operand : Expr)
  | call (callee : Expr) (args : Arguments)
  | field (base : Expr) (name : Ident)
  | conditional (cond : Expr) (consequent : Block) (alternative : Option Alternative)
  | ret (value : Option Expr)
  | brk (label : Option Ident) (value : Option Expr)
  | cont (label : Option Ident)
  | block (body : Block)
  | whileLoop (cond : Expr) (body : Block)
  | forLoop (var : Ident) (iterator : Expr) (body : Block)
  | loop (body : Block)
  | labeled (label : Ident) (inner : Expr)
  | error

/-- The arguments of a call, with the span of the parentheses. -/
structure Arguments where
  args : List Expr
  span : Span

/-- What a conditional does otherwise. -/
inductive Alternative where
  | chain (conditional : Expr)
  | block (body : Block)

structure Block where
  stmts : List Stmt
  lastExpr : Option Expr
  span : Span

/-- An expression in place of a statement. -/
structure Stmt where
  expr : Expr
  semicolon : Bool

end

namespace ExprKind

/-- Forms which end a statement without a semicolon. -/
def isBlockLike : ExprKind → Bool
  | block _ | whileLoop _ _ | forLoop _ _ _ | loop _ | labeled _ _ => true
  | _ => false

/-- Whether the form stands for input that could not be parsed. -/
def isError : ExprKind → Bool
  | error => true
  | _ => false

/-- Whether a statement of this form needs a semicolon to go on after it. -/
def needsSemicolon (kind : ExprKind) : Bool := !kind.isBlockLike && !kind.isError

/-- The name of a form. -/
def caseName : ExprKind → String
  | bool _ => "Bool"
  | literal _ => "Literal"
  | null => "Null"
  | paren _ => "Paren"
  | path _ => "Path"
  | binary _ _ _ => "Binary"
  | assign _ _ => "Assign"
  | unary _ _ => "Unary"
  | deref _ => "Deref"
  | borrow _ _ => "Borrow"
  | call _ _ => "Call"
  | field _ _ => "Field"
  | conditional _ _ _ => "If"
  | ret _ => "Return"
  | brk _ _ => "Break"
  | cont _ => "Continue"
  | block _ => "Block"
  | whileLoop _ _ => "While"
  | forLoop _ _ _ => "For"
  | loop _ => "Loop"
  | labeled _ _ => "Labeled"
  | error => "Error"

end ExprKind

/-! ## Definitions -/

/-- The type of a global definition. -/
inductive TypeExpr where
  | primitive (type : Spanned PrimitiveType)
  | expr (expr : Expr)

/-- A global definition: `name :: value` and `name : type : value` define a constant,
`name := value` and `name : type = value` a mutable global. -/
structure GlobalDef where
  name : Ident
  type : Option TypeExpr
  mutable : Bool
  value : Expr
  semicolon : Bool

/-- A part of a source file; so far only definitions. -/
structure Item where
  definition : GlobalDef
  span : Span

structure SourceFile where
  items : List Item
  span : Span

/-- The definitions of a source, in order. -/
def SourceFile.definitions (file : SourceFile) : List GlobalDef :=
  file.items.map Item.definition

end LunSyntax
