import LunSyntax.Grammar.Expression

/-!
# Derivations

The grammar as a relation between syntax and the kinds of tokens it is written with.

* `Expr.Derives`, with `Block.Derives` and the like: the rules for expressions.  An operand stands
  only where its `Expr.level` is tight enough for the operator around it, so each expression is
  grouped in one way;
* `TypeExpr.Derives`, `GlobalDef.Derives`: the rules for definitions;
* `SourceFile.Derives`: a file is written as its definitions, one after the other.

In the mode `.strict` this is the grammar of the language.  In the mode `.recovering` there are
also rules for input that a parser gave up, and semicolons may be missing.
-/

set_option autoImplicit false

namespace LunSyntax

/-! ## Levels -/

/-- How tightly an operator binds its operands. -/
def BinOp.level : BinOp → Nat
  | or => 1
  | and => 2
  | gt | lt | gte | lte => 3
  | eq | ne => 4
  | bitOr => 5
  | bitXor => 6
  | bitAnd => 7
  | shl | shr => 8
  | add | sub => 9
  | mul | div | mod => 10

/-- How tightly a form holds together: assignments are the loosest, then come ten levels of binary
operators, leading operators, suffixes and primary expressions. -/
def ExprKind.level : ExprKind → Nat
  | assign _ _ => 0
  | binary _ op _ => op.node.level
  | unary _ _ | borrow _ _ => 11
  | deref _ | call _ _ | field _ _ => 12
  | _ => 13

/-- How tightly an expression holds together. -/
def Expr.level (e : Expr) : Nat := e.kind.level

/-- The operand an expression starts with, or the expression itself. -/
def Expr.leftmost : Expr → Expr
  | ⟨.binary lhs _ _, _⟩ => lhs.leftmost
  | ⟨.assign lhs _, _⟩ => lhs.leftmost
  | ⟨.deref operand, _⟩ => operand.leftmost
  | ⟨.call callee _, _⟩ => callee.leftmost
  | ⟨.field base _, _⟩ => base.leftmost
  | e => e

namespace ExprKind

/-- Blocks and loops without a label. -/
def isUnlabeled : ExprKind → Bool
  | block _ | whileLoop _ _ | forLoop _ _ _ | loop _ => true
  | _ => false

/-- Expressions with a label. -/
def isLabeled : ExprKind → Bool
  | labeled _ _ => true
  | _ => false

/-- Conditionals. -/
def isConditional : ExprKind → Bool
  | conditional _ _ _ => true
  | _ => false

end ExprKind

/-! ## Tokens of the leaves -/

def Ident.token (name : Ident) : TokenKind := .ident name.name

def UnOp.token : UnOp → TokenKind
  | neg => .control '-'
  | not => .control '!'

/-- The token a path starts with. -/
def PathRoot.token : PathRoot → TokenKind
  | orb _ => .keyword "orb"
  | ident name => name.token

def Path.tokens (p : Path) : List TokenKind :=
  p.root.token :: p.segments.flatMap fun segment => [.digraph .pathSep, segment.token]

/-- The tokens that refer to a label, if there is one. -/
def labelTokens : Option Ident → List TokenKind
  | none => []
  | some label => [.control ':', label.token]

/-- The token of a mutable borrow. -/
def mutTokens : Option Span → List TokenKind
  | none => []
  | some _ => [.keyword "mut"]

/-- The tokens of an optional semicolon. -/
def semicolonTokens : Bool → List TokenKind
  | false => []
  | true => [.control ';']

/-! ## Given up input -/

/-- Whether input that a parser gave up has a derivation. -/
inductive Mode where
  | strict
  | recovering
  deriving DecidableEq, Repr

/-- The number of delimiters of a pair that are open after some tokens, of which `depth` are open
before them; none once the last of these was closed. -/
def Parser.Delimiters.depthAfter (pair : Parser.Delimiters) :
    Nat → List TokenKind → Option Nat
  | depth, [] => some depth
  | depth, t :: rest =>
    if t = pair.opening then pair.depthAfter (depth + 1) rest
    else if t = pair.closing then
      if depth ≤ 1 then none else pair.depthAfter (depth - 1) rest
    else pair.depthAfter depth rest

/-- Tokens from an opening delimiter to the one which closes it.  Delimiters of other pairs are as
any token between them. -/
def Parser.Delimiters.Skipped (pair : Parser.Delimiters) (ts : List TokenKind) : Prop :=
  ∃ inner, ts = pair.opening :: inner ++ [pair.closing] ∧ pair.depthAfter 1 inner = some 1

/-! ## Expressions -/

mutual

/-- Expressions and the tokens they are written with. -/
inductive Expr.Derives (mode : Mode) : Expr → List TokenKind → Prop
  | bool {value : Bool} {span : Span} :
    Expr.Derives mode ⟨.bool value, span⟩ [.keyword (if value then "true" else "false")]
  | literal {lit : Literal} {span : Span} :
    Expr.Derives mode ⟨.literal lit, span⟩ [.literal lit]
  | null {span : Span} : Expr.Derives mode ⟨.null, span⟩ [.keyword "null"]
  | paren {inner : Expr} {span : Span} {ts : List TokenKind} :
    inner.Derives mode ts →
      Expr.Derives mode ⟨.paren inner, span⟩ (.control '(' :: ts ++ [.control ')'])
  | path {path : Path} {span : Span} : Expr.Derives mode ⟨.path path, span⟩ path.tokens
  /-- the left operand may be of the same level, so the operators of a level group to the left -/
  | binary {lhs rhs : Expr} {op : Spanned BinOp} {span : Span} {us vs : List TokenKind} :
    lhs.Derives mode us → op.node.level ≤ lhs.level →
      rhs.Derives mode vs → op.node.level < rhs.level →
      Expr.Derives mode ⟨.binary lhs op rhs, span⟩ (us ++ op.node.token :: vs)
  | assign {lhs rhs : Expr} {span : Span} {us vs : List TokenKind} :
    lhs.Derives mode us → 1 ≤ lhs.level → rhs.Derives mode vs →
      Expr.Derives mode ⟨.assign lhs rhs, span⟩ (us ++ .control '=' :: vs)
  | unary {op : Spanned UnOp} {operand : Expr} {span : Span} {ts : List TokenKind} :
    operand.Derives mode ts → 11 ≤ operand.level →
      Expr.Derives mode ⟨.unary op operand, span⟩ (op.node.token :: ts)
  | borrow {mutSpan : Option Span} {operand : Expr} {span : Span} {ts : List TokenKind} :
    operand.Derives mode ts → 11 ≤ operand.level →
      Expr.Derives mode ⟨.borrow mutSpan operand, span⟩
        (.control '&' :: mutTokens mutSpan ++ ts)
  /-- one token for two borrows, of which only the inner one can be mutable -/
  | doubleBorrow {mutSpan : Option Span} {operand : Expr} {inner span : Span}
      {ts : List TokenKind} :
    operand.Derives mode ts → 11 ≤ operand.level →
      Expr.Derives mode ⟨.borrow none ⟨.borrow mutSpan operand, inner⟩, span⟩
        (.digraph .and :: mutTokens mutSpan ++ ts)
  | deref {operand : Expr} {span : Span} {ts : List TokenKind} :
    operand.Derives mode ts → 12 ≤ operand.level →
      Expr.Derives mode ⟨.deref operand, span⟩ (ts ++ [.digraph .deref])
  | call {callee : Expr} {args : Arguments} {span : Span} {us vs : List TokenKind} :
    callee.Derives mode us → 12 ≤ callee.level → args.Derives mode vs →
      Expr.Derives mode ⟨.call callee args, span⟩ (us ++ vs)
  | field {base : Expr} {name : Ident} {span : Span} {ts : List TokenKind} :
    base.Derives mode ts → 12 ≤ base.level →
      Expr.Derives mode ⟨.field base name, span⟩ (ts ++ [.control '.', name.token])
  | conditional {cond : Expr} {consequent : Block} {alternative : Option Alternative}
      {span : Span} {us vs ws : List TokenKind} :
    cond.Derives mode us → consequent.Derives mode vs → AlternativeDerives mode alternative ws →
      Expr.Derives mode ⟨.conditional cond consequent alternative, span⟩
        (.keyword "if" :: us ++ vs ++ ws)
  | ret {value : Option Expr} {span : Span} {ts : List TokenKind} :
    ValueDerives mode value ts → Expr.Derives mode ⟨.ret value, span⟩ (.keyword "return" :: ts)
  | brk {label : Option Ident} {value : Option Expr} {span : Span} {ts : List TokenKind} :
    ValueDerives mode value ts →
      Expr.Derives mode ⟨.brk label value, span⟩ (.keyword "break" :: labelTokens label ++ ts)
  | cont {label : Option Ident} {span : Span} :
    Expr.Derives mode ⟨.cont label, span⟩ (.keyword "continue" :: labelTokens label)
  | block {body : Block} {span : Span} {ts : List TokenKind} :
    body.Derives mode ts → Expr.Derives mode ⟨.block body, span⟩ ts
  | whileLoop {cond : Expr} {body : Block} {span : Span} {us vs : List TokenKind} :
    cond.Derives mode us → body.Derives mode vs →
      Expr.Derives mode ⟨.whileLoop cond body, span⟩ (.keyword "while" :: us ++ vs)
  | forLoop {var : Ident} {iterator : Expr} {body : Block} {span : Span}
      {us vs : List TokenKind} :
    iterator.Derives mode us → body.Derives mode vs →
      Expr.Derives mode ⟨.forLoop var iterator body, span⟩
        (.keyword "for" :: var.token :: .keyword "in" :: us ++ vs)
  | loop {body : Block} {span : Span} {ts : List TokenKind} :
    body.Derives mode ts → Expr.Derives mode ⟨.loop body, span⟩ (.keyword "loop" :: ts)
  | labeled {label : Ident} {inner : Expr} {span : Span} {ts : List TokenKind} :
    inner.Derives mode ts → inner.kind.isUnlabeled = true →
      Expr.Derives mode ⟨.labeled label inner, span⟩ (label.token :: .control ':' :: ts)
  | skipped {span : Span} {ts : List TokenKind} :
    mode = .recovering → Grammar.parens.Skipped ts → Expr.Derives mode ⟨.error, span⟩ ts

/-- The value of a jump, if there is one. -/
inductive ValueDerives (mode : Mode) : Option Expr → List TokenKind → Prop
  | none : ValueDerives mode none []
  | some {value : Expr} {ts : List TokenKind} :
    value.Derives mode ts → ValueDerives mode (some value) ts

/-- The arguments of a call between parentheses. -/
inductive Arguments.Derives (mode : Mode) : Arguments → List TokenKind → Prop
  | list {args : List Expr} {span : Span} {ts : List TokenKind} :
    ArgsDerive mode args ts →
      Arguments.Derives mode ⟨args, span⟩ (.control '(' :: ts ++ [.control ')'])
  | skipped {inner span : Span} {ts : List TokenKind} :
    mode = .recovering → Grammar.parens.Skipped ts →
      Arguments.Derives mode ⟨[⟨.error, inner⟩], span⟩ ts

/-- Arguments with commas between them and, after the last one, a comma or none. -/
inductive ArgsDerive (mode : Mode) : List Expr → List TokenKind → Prop
  | nil : ArgsDerive mode [] []
  | last {arg : Expr} {ts : List TokenKind} :
    arg.Derives mode ts → ArgsDerive mode [arg] ts
  | trailing {arg : Expr} {ts : List TokenKind} :
    arg.Derives mode ts → ArgsDerive mode [arg] (ts ++ [.control ','])
  | cons {arg next : Expr} {rest : List Expr} {us vs : List TokenKind} :
    arg.Derives mode us → ArgsDerive mode (next :: rest) vs →
      ArgsDerive mode (arg :: next :: rest) (us ++ .control ',' :: vs)

/-- What a conditional does otherwise. -/
inductive AlternativeDerives (mode : Mode) : Option Alternative → List TokenKind → Prop
  | none : AlternativeDerives mode none []
  | chain {conditional : Expr} {ts : List TokenKind} :
    conditional.Derives mode ts → conditional.kind.isConditional = true →
      AlternativeDerives mode (some (.chain conditional)) (.keyword "else" :: ts)
  | block {body : Block} {ts : List TokenKind} :
    body.Derives mode ts → AlternativeDerives mode (some (.block body)) (.keyword "else" :: ts)

/-- Blocks.  An expression before the closing brace, be it block-like, is the value. -/
inductive Block.Derives (mode : Mode) : Block → List TokenKind → Prop
  | value {stmts : List Stmt} {lastExpr : Expr} {span : Span} {us vs : List TokenKind} :
    StmtsDerive mode stmts us → lastExpr.Derives mode vs →
      Block.Derives mode ⟨stmts, some lastExpr, span⟩
        (.control '{' :: (us ++ vs) ++ [.control '}'])
  | noValue {stmts : List Stmt} {span : Span} {ts : List TokenKind} :
    StmtsDerive mode stmts ts → (∀ s ∈ stmts.getLast?, s.semicolon = true) →
      Block.Derives mode ⟨stmts, none, span⟩ (.control '{' :: ts ++ [.control '}'])
  | skipped {inner span : Span} {ts : List TokenKind} :
    mode = .recovering → Grammar.braces.Skipped ts →
      Block.Derives mode ⟨[⟨⟨.error, inner⟩, false⟩], none, span⟩ ts

/-- Statements.  Only block-like expressions go without a semicolon. -/
inductive StmtsDerive (mode : Mode) : List Stmt → List TokenKind → Prop
  | nil : StmtsDerive mode [] []
  | cons {e : Expr} {semicolon : Bool} {rest : List Stmt} {us vs : List TokenKind} :
    e.Derives mode us →
      (semicolon = false → e.kind.isBlockLike = true ∨ mode = .recovering) →
      StmtsDerive mode rest vs →
      StmtsDerive mode (⟨e, semicolon⟩ :: rest) (us ++ semicolonTokens semicolon ++ vs)

end

/-! ## Definitions -/

/-- Types: builtin ones, and expressions without assignment which do not start with a label. -/
inductive TypeExpr.Derives (mode : Mode) : TypeExpr → List TokenKind → Prop
  | primitive {type : Spanned PrimitiveType} :
    TypeExpr.Derives mode (.primitive type) [.keyword type.node.text]
  | expr {e : Expr} {ts : List TokenKind} :
    e.Derives mode ts → 1 ≤ e.level → e.leftmost.kind.isLabeled = false →
      TypeExpr.Derives mode (.expr e) ts

/-- The token before a value, which tells whether the global is mutable. -/
def separatorToken (mutable : Bool) : TokenKind :=
  if mutable then .control '=' else .control ':'

/-- What stands between the name of a definition and its value. -/
inductive HeaderDerives (mode : Mode) : Option TypeExpr → Bool → List TokenKind → Prop
  | joined : HeaderDerives mode none false [.digraph .pathSep]
  | untyped {mutable : Bool} :
    HeaderDerives mode none mutable [.control ':', separatorToken mutable]
  | typed {type : TypeExpr} {mutable : Bool} {ts : List TokenKind} :
    type.Derives mode ts →
      HeaderDerives mode (some type) mutable (.control ':' :: ts ++ [separatorToken mutable])

/-- Definitions.  Only block-like values go without a semicolon. -/
inductive GlobalDef.Derives (mode : Mode) : GlobalDef → List TokenKind → Prop
  | intro {name : Ident} {type : Option TypeExpr} {mutable : Bool} {value : Expr}
      {semicolon : Bool} {us vs : List TokenKind} :
    HeaderDerives mode type mutable us → value.Derives mode vs →
      (semicolon = false → value.kind.isBlockLike = true ∨ mode = .recovering) →
      GlobalDef.Derives mode ⟨name, type, mutable, value, semicolon⟩
        (name.token :: us ++ vs ++ semicolonTokens semicolon)

/-- Definitions one after the other. -/
inductive ItemsDerive (mode : Mode) : List Item → List TokenKind → Prop
  | nil : ItemsDerive mode [] []
  | cons {item : Item} {rest : List Item} {us vs : List TokenKind} :
    item.definition.Derives mode us → ItemsDerive mode rest vs →
      ItemsDerive mode (item :: rest) (us ++ vs)

/-- A file is written as its definitions. -/
def SourceFile.Derives (mode : Mode) (file : SourceFile) (ts : List TokenKind) : Prop :=
  ItemsDerive mode file.items ts

end LunSyntax
