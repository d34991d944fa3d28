import LunSyntax.Ast.Document
import LunSyntax.Token.Reader

/-!
# Reading syntax

Files from the JSON they are written as.  All readers take the number of brackets that may still
be opened.
-/

set_option autoImplicit false

namespace LunSyntax

open Reader

/-- Read a name. -/
def Ident.read (depth : Nat) : Reader Ident := do
  let fields := deeper depth fun _ =>
    Fields.cons "name" str .refused <| .cons "span" place .refused .nil
  let (name, span, _) ← record ⟨"Ident", false⟩ fields
  return ⟨name, span⟩

/-- Read a value which is known by name. -/
def readNamed {α : Type} (all : List α) (name : α → String) (depth : Nat) : Reader α :=
  let find (wanted : String) : Option α := all.find? (name · == wanted)
  case (all.map name) find <| deeper depth fun _ wanted =>
    match find wanted with
    | some a => .bare a
    | none => .content (fail (.unknownCase wanted (all.map name)))

/-- Read a value known by name along with its span. -/
def Spanned.read {α : Type} (all : List α) (name : α → String) (depth : Nat) :
    Reader (Spanned α) := do
  let fields := deeper depth fun d =>
    Fields.cons "node" (readNamed all name d) .refused <| .cons "span" place .refused .nil
  let (node, span, _) ← record ⟨"Spanned", false⟩ fields
  return ⟨node, span⟩

def PathRoot.read (depth : Nat) : Reader PathRoot :=
  case ["Orb", "Ident"] (fun _ => none) <| deeper depth fun d name =>
    .content (if name == "Orb" then PathRoot.orb <$> place else PathRoot.ident <$> Ident.read d)

/-- Read a path. -/
def Path.read (depth : Nat) : Reader Path := do
  let fields := deeper depth fun d =>
    Fields.cons "root" (PathRoot.read d) .refused <|
      .cons "segments" (list (deeper d Ident.read)) .refused .nil
  let (root, segments, _) ← record ⟨"Path", false⟩ fields
  return ⟨root, segments⟩

/-! ## Expressions -/

/-- Read the record of an expression. -/
def readExprRecord (kind : Option (Reader ExprKind)) : Reader Expr := do
  let fields := kind.map fun kind =>
    Fields.cons "kind" kind .refused <| .cons "span" place .refused .nil
  let (kind, span, _) ← record ⟨"Expr", false⟩ fields
  return ⟨kind, span⟩

/-- Read the record of arguments.  Both brackets, of the record and of the list, are counted. -/
def readArgumentsRecord (args : Option (Option (Reader Expr))) : Reader Arguments := do
  let fields := args.map fun args =>
    Fields.cons "args" (list args) .refused <| .cons "span" place .refused .nil
  let (args, span, _) ← record ⟨"Arguments", false⟩ fields
  return ⟨args, span⟩

/-- Read the record of a statement. -/
def readStmtRecord (expr : Option (Reader Expr)) : Reader Stmt := do
  let fields := expr.map fun expr =>
    Fields.cons "expr" expr .refused <| .cons "semicolon" bool .refused .nil
  let (expr, semicolon, _) ← record ⟨"Stmt", false⟩ fields
  return ⟨expr, semicolon⟩

/-- Read the record of a block. -/
def readBlockRecord (inside : Option (Option (Reader Stmt) × Reader Expr)) : Reader Block := do
  let fields := inside.map fun contents =>
    Fields.cons "stmts" (list contents.1) .refused <|
      .cons "last_expr" (option contents.2) (.allowed none) <| .cons "span" place .refused .nil
  let (stmts, lastExpr, span, _) ← record ⟨"Block", false⟩ fields
  return ⟨stmts, lastExpr, span⟩

/-- Read what a conditional does otherwise. -/
def readAlternativeCase (inside : Option (Reader Expr × Reader Block)) : Reader Alternative :=
  case ["If", "Block"] (fun _ => none) <| inside.map fun (expr, block) name =>
    .content (if name == "If" then Alternative.chain <$> expr else Alternative.block <$> block)

/-- Readers for what is inside of the record of a form. -/
structure Operands where
  depth : Nat
  expr : Reader Expr
  block : Reader Block
  arguments : Reader Arguments
  alternative : Reader Alternative

namespace Operands

/-- Read two operands and their operator. -/
def readBinary (inside : Option Operands) : Reader ExprKind := do
  let fields := inside.map fun o =>
    Fields.cons "lhs" o.expr .refused <|
      .cons "op" (Spanned.read BinOp.all BinOp.caseName o.depth) .refused <|
      .cons "rhs" o.expr .refused .nil
  let (lhs, op, rhs, _) ← record ⟨"BinaryExpr", false⟩ fields
  return .binary lhs op rhs

/-- Read an assignment. -/
def readAssign (inside : Option Operands) : Reader ExprKind := do
  let fields := inside.map fun o =>
    Fields.cons "lhs" o.expr .refused <| .cons "rhs" o.expr .refused .nil
  let (lhs, rhs, _) ← record ⟨"AssignExpr", false⟩ fields
  return .assign lhs rhs

/-- Read an operand and the operator before it. -/
def readUnary (inside : Option Operands) : Reader ExprKind := do
  let fields := inside.map fun o =>
    Fields.cons "op" (Spanned.read UnOp.all UnOp.caseName o.depth) .refused <|
      .cons "expr" o.expr .refused .nil
  let (op, operand, _) ← record ⟨"UnaryExpr", false⟩ fields
  return .unary op operand

/-- Read a borrow. -/
def readBorrow (inside : Option Operands) : Reader ExprKind := do
  let fields := inside.map fun o =>
    Fields.cons "mut_span" (option place) (.allowed none) <| .cons "expr" o.expr .refused .nil
  let (mutSpan, operand, _) ← record ⟨"BorrowExpr", false⟩ fields
  return .borrow mutSpan operand

/-- Read a call. -/
def readCall (inside : Option Operands) : Reader ExprKind := do
  let fields := inside.map fun o =>
    Fields.cons "callee" o.expr .refused <| .cons "args" o.arguments .refused .nil
  let (callee, args, _) ← record ⟨"CallExpr", false⟩ fields
  return .call callee args

/-- Read the access of a field. -/
def readField (inside : Option Operands) : Reader ExprKind := do
  let fields := inside.map fun o =>
    Fields.cons "expr" o.expr .refused <| .cons "field" (Ident.read o.depth) .refused .nil
  let (base, name, _) ← record ⟨"FieldExpr", false⟩ fields
  return .field base name

/-- Read a conditional. -/
def readConditional (inside : Option Operands) : Reader ExprKind := do
  let fields := inside.map fun o =>
    Fields.cons "cond" o.expr .refused <| .cons "then" o.block .refused <|
      .cons "els" (option o.alternative) (.allowed none) .nil
  let (cond, consequent, alternative, _) ← record ⟨"IfExpr", false⟩ fields
  return .conditional cond consequent alternative

/-- Read a break. -/
def readBreak (inside : Option Operands) : Reader ExprKind := do
  let fields := inside.map fun o =>
    Fields.cons "label" (option (Ident.read o.depth)) (.allowed none) <|
      .cons "value" (option o.expr) (.allowed none) .nil
  let (label, value, _) ← record ⟨"BreakExpr", false⟩ fields
  return .brk label value

/-- Read a loop with a condition. -/
def readWhile (inside : Option Operands) : Reader ExprKind := do
  let fields := inside.map fun o =>
    Fields.cons "cond" o.expr .refused <| .cons "body" o.block .refused .nil
  let (cond, body, _) ← record ⟨"WhileExpr", false⟩ fields
  return .whileLoop cond body

/-- Read a loop over an iterator. -/
def readFor (inside : Option Operands) : Reader ExprKind := do
  let fields := inside.map fun o =>
    Fields.cons "var" (Ident.read o.depth) .refused <| .cons "iterator" o.expr .refused <|
      .cons "body" o.block .refused .nil
  let (var, iterator, body, _) ← record ⟨"ForExpr", false⟩ fields
  return .forLoop var iterator body

def readLoop (inside : Option Operands) : Reader ExprKind := do
  let fields := inside.map fun o => Fields.cons "body" o.block .refused .nil
  let (body, _) ← record ⟨"LoopExpr", false⟩ fields
  return .loop body

/-- Read a labeled expression. -/
def readLabeled (inside : Option Operands) : Reader ExprKind := do
  let fields := inside.map fun o =>
    Fields.cons "label" (Ident.read o.depth) .refused <| .cons "expr" o.expr .refused .nil
  let (label, inner, _) ← record ⟨"LabeledExpr", false⟩ fields
  return .labeled label inner

end Operands

def ExprKind.caseNames : List String :=
  ["Bool", "Literal", "Null", "Paren", "Path", "Binary", "Assign", "Unary", "Deref", "Borrow",
    "Call", "Field", "If", "Return", "Break", "Continue", "Block", "While", "For", "Loop",
    "Labeled", "Error"]

/-- The forms of expressions without content. -/
def ExprKind.bare? : String → Option ExprKind
  | "Null" => some .null
  | "Error" => some .error
  | _ => none

/-- The content of a form of expressions, with readers for an expression and a block, and for what
is inside of a record. -/
def readFormCase (depth : Nat) (expr : Reader Expr) (block : Reader Block)
    (inside : Option Operands) (name : String) : Case ExprKind :=
  match name with
  | "Bool" => .content (ExprKind.bool <$> bool)
  | "Literal" => .content (ExprKind.literal <$> Literal.read depth)
  | "Paren" => .content (ExprKind.paren <$> expr)
  | "Path" => .content (ExprKind.path <$> Path.read depth)
  | "Binary" => .content (Operands.readBinary inside)
  | "Assign" => .content (Operands.readAssign inside)
  | "Unary" => .content (Operands.readUnary inside)
  | "Deref" => .content (ExprKind.deref <$> expr)
  | "Borrow" => .content (Operands.readBorrow inside)
  | "Call" => .content (Operands.readCall inside)
  | "Field" => .content (Operands.readField inside)
  | "If" => .content (Operands.readConditional inside)
  | "Return" => .content (ExprKind.ret <$> option expr)
  | "Break" => .content (Operands.readBreak inside)
  | "Continue" => .content (ExprKind.cont <$> option (Ident.read depth))
  | "Block" => .content (ExprKind.block <$> block)
  | "While" => .content (Operands.readWhile inside)
  | "For" => .content (Operands.readFor inside)
  | "Loop" => .content (Operands.readLoop inside)
  | "Labeled" => .content (Operands.readLabeled inside)
  | _ => .bare ((ExprKind.bare? name).getD .error)

mutual

/-- Read an expression. -/
def Expr.read (depth : Nat) : Reader Expr :=
  readExprRecord
    (match depth with
      | 0 => none
      | d + 1 => some (ExprKind.read d))

/-- Read a form of expressions. -/
def ExprKind.read (depth : Nat) : Reader ExprKind :=
  case ExprKind.caseNames ExprKind.bare?
    (match depth with
      | 0 => none
      | d + 1 => some (readFormCase d (Expr.read d) (Block.read d)
          (match d with
            | 0 => none
            | e + 1 => some ⟨e, Expr.read e, Block.read e, Arguments.read e, Alternative.read e⟩)))

/-- Read arguments. -/
def Arguments.read (depth : Nat) : Reader Arguments :=
  readArgumentsRecord
    (match depth with
      | 0 => none
      | 1 => some none
      | d + 2 => some (some (Expr.read d)))

/-- Read what a conditional does otherwise. -/
def Alternative.read (depth : Nat) : Reader Alternative :=
  readAlternativeCase
    (match depth with
      | 0 => none
      | d + 1 => some (Expr.read d, Block.read d))

/-- Read a block. -/
def Block.read (depth : Nat) : Reader Block :=
  readBlockRecord
    (match depth with
      | 0 => none
      | d + 1 => some
          (match d with
            | 0 => none
            | e + 1 => some (Stmt.read e),
          Expr.read d))

/-- Read a statement. -/
def Stmt.read (depth : Nat) : Reader Stmt :=
  readStmtRecord
    (match depth with
      | 0 => none
      | d + 1 => some (Expr.read d))

end

/-! ## Definitions -/

/-- Read a type. -/
def TypeExpr.read (depth : Nat) : Reader TypeExpr :=
  case ["Primitive", "Expr"] (fun _ => none) <| deeper depth fun d name =>
    .content (if name == "Primitive" then
        TypeExpr.primitive <$> Spanned.read PrimitiveType.all PrimitiveType.caseName d
      else TypeExpr.expr <$> Expr.read d)

/-- Read a definition. -/
def GlobalDef.read (depth : Nat) : Reader GlobalDef := do
  let fields := deeper depth fun d =>
    Fields.cons "name" (Ident.read d) .refused <|
      .cons "ty" (option (TypeExpr.read d)) (.anywhere none) <|
      .cons "mutable" bool .refused <| .cons "value" (Expr.read d) .refused <|
      .cons "semicolon" bool .refused .nil
  let (name, type, mutable, value, semicolon, _) ← record ⟨"GlobalDef", false⟩ fields
  return ⟨name, type, mutable, value, semicolon⟩

/-- Read an item. -/
def Item.read (depth : Nat) : Reader Item := do
  let fields := deeper depth fun d =>
    Fields.cons "kind" (case ["GlobalDef"] (fun _ => none)
      (deeper d fun e _ => .content (GlobalDef.read e))) .refused <|
      .cons "span" place .refused .nil
  let (definition, span, _) ← record ⟨"Item", false⟩ fields
  return ⟨definition, span⟩

/-- Read a file. -/
def SourceFile.read (depth : Nat) : Reader SourceFile := do
  let fields := deeper depth fun d =>
    Fields.cons "items" (list (deeper d Item.read)) .refused <| .cons "span" place .refused .nil
  let (items, span, _) ← record ⟨"SourceFile", false⟩ fields
  return ⟨items, span⟩

def SourceFile.ofJson (source : String) : Except ReadFault SourceFile :=
  (SourceFile.read maxDepth).run source

def Span.ofJson (source : String) : Except ReadFault Span := place.run source

end LunSyntax
