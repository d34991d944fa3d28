import LunSyntax.Ast.Document
import LunSyntax.Schema

/-!
# Schemas of tokens and syntax

`tokensSchema` and `fileSchema` describe what tokens and files are written as.
-/

set_option autoImplicit false

namespace LunSyntax

def needed (key : String) (type : ValueType) : FieldSchema := { key, type }

/-- A field which may be left out. -/
def omissible (key : String) (type : ValueType) : FieldSchema :=
  { key, type, required := false }

def FieldSchema.noted (f : FieldSchema) (note : String) : FieldSchema :=
  { f with note := some note }

def holding (name : String) (content : ValueType) : CaseSchema := { name, content := some content }

def CaseSchema.noted (c : CaseSchema) (note : String) : CaseSchema :=
  { c with note := some note }

/-- A sum of bare cases. -/
def namedCases (note : Option String) (names : List String) : Definition :=
  .sum note (names.map fun name => { name })

def spanField : FieldSchema := needed "span" (.named "Span")

def offsetType : ValueType := .word "uint" none

/-- The definitions which tokens refer to, apart from those of tokens. -/
def literalDefinitions : List (String × Definition) := [
  ("EscapeSequence", .record none [
    (needed "raw" .text).noted "The escape as written, including the backslash",
    needed "value" .char,
    (needed "span" (.named "Range_of_uint")).noted "Char offsets of the escape within the source"]),
  ("IntegerLit", .record (some "An integer literal, such as `42`, `0x2A` or `42'u8`.") [
    needed "radix" (.word "uint32" none),
    (needed "digits" .text).noted "The digits without the radix prefix, possibly containing `_`",
    (omissible "tag" .optionalText).noted "Suffix after the `'`"]),
  ("Literal", .sum none [
    holding "Integer" (.named "IntegerLit"),
    holding "String" (.named "StringLit")]),
  ("Range_of_uint", .record none [needed "start" offsetType, needed "end" offsetType]),
  ("StringContent", .record none [
    needed "text" .text,
    (needed "span" (.named "Range_of_uint")).noted
      "Char offsets of the content within the source"]),
  ("StringLit", .record (some "A string literal, such as `\"a\\n\"` or `c\"abc\"`.") [
    omissible "tag" .optionalText,
    needed "parts" (.list "StringPart")]),
  ("StringPart", .sum none [
    (holding "Content" (.named "StringContent")).noted "Plain text between escapes",
    holding "Escape" (.named "EscapeSequence")])]

/-- The definitions of tokens. -/
def tokenDefinitions : List (String × Definition) := [
  ("Token", .record none [
    needed "kind" (.named "TokenKind"),
    needed "span" (.named "Range_of_uint")]),
  ("TokenKind", .sum none ([
    holding "Ident" .text,
    holding "Keyword" .text,
    holding "Literal" (.named "Literal"),
    (holding "Control" .char).noted "single-char control tokens"]
    ++ Digraph.all.map (fun op => { name := op.caseName })
    ++ [holding "Comment" .text]))]

def tokensSchema : Schema where
  title := "Tokens"
  root := .list "Token"
  definitions := literalDefinitions ++ tokenDefinitions

def spannedDefinition (name : String) : Definition :=
  .record (some "An operator along with where it was written.") [
    needed "node" (.named name), spanField]

/-- The definitions of spans, names, operators and types. -/
def commonDefinitions : List (String × Definition) := [
  ("BinOp", namedCases none (BinOp.all.map BinOp.caseName)),
  ("Ident", .record (some "A name, such as a definition, a label or a path segment.") [
    needed "name" .text, spanField]),
  ("Path", .record (some "A path such as `a`, `orb::a` or `a::b::c`.") [
    needed "root" (.named "PathRoot"), needed "segments" (.list "Ident")]),
  ("PathRoot", .sum none [
    (holding "Orb" (.named "Span")).noted "The `orb` keyword, the root of the current orb",
    holding "Ident" (.named "Ident")]),
  ("PrimitiveType",
    namedCases (some "Builtin types.") (PrimitiveType.all.map PrimitiveType.caseName)),
  ("Span", .record
    (some "A range of chars within a single source. Offsets are counted in chars,\nnot bytes.") [
    needed "start" offsetType,
    needed "end" offsetType,
    (needed "source_id" (.word "uint16" (some maxSource))).noted
      ("A key representing the path of the source. Value is stored in lun's\n"
        ++ "`SourceTree::source_ids`.")]),
  ("Spanned", spannedDefinition "PrimitiveType"),
  ("Spanned2", spannedDefinition "BinOp"),
  ("Spanned3", spannedDefinition "UnOp"),
  ("TypeExpr", .sum (some "The type of a global definition.") [
    holding "Primitive" (.named "Spanned"),
    holding "Expr" (.named "Expr")]),
  ("UnOp", namedCases none (UnOp.all.map UnOp.caseName))]

/-- The forms of expressions. -/
def formCases : List CaseSchema := [
  holding "Bool" .bool,
  holding "Literal" (.named "Literal"),
  { name := "Null" },
  holding "Paren" (.named "Expr"),
  holding "Path" (.named "Path"),
  holding "Binary" (.named "BinaryExpr"),
  holding "Assign" (.named "AssignExpr"),
  (holding "Unary" (.named "UnaryExpr")).noted "Prefix `-` or `!`",
  (holding "Deref" (.named "Expr")).noted "Postfix `.*`",
  holding "Borrow" (.named "BorrowExpr"),
  holding "Call" (.named "CallExpr"),
  holding "Field" (.named "FieldExpr"),
  holding "If" (.named "IfExpr"),
  holding "Return" (.optional "Expr"),
  holding "Break" (.named "BreakExpr"),
  holding "Continue" (.optional "Ident"),
  holding "Block" (.named "Block"),
  holding "While" (.named "WhileExpr"),
  holding "For" (.named "ForExpr"),
  holding "Loop" (.named "LoopExpr"),
  holding "Labeled" (.named "LabeledExpr"),
  { name := "Error",
    note := some ("Placeholder for input that couldn't be parsed. Only produced when\n"
      ++ "parsing with recovery, always alongside an error.") }]

/-- The definitions of expressions. -/
def exprDefinitions : List (String × Definition) := [
  ("Arguments", .record
    (some "The parenthesized arguments of a call, with the span of the parentheses.") [
    needed "args" (.list "Expr"), spanField]),
  ("AssignExpr", .record
    (some "`lhs = rhs`. Right associative, and binds looser than anything else.") [
    needed "lhs" (.named "Expr"), needed "rhs" (.named "Expr")]),
  ("BinaryExpr", .record
    (some "Expression with two operands and an operator, such as `1 + 2`.") [
    needed "lhs" (.named "Expr"), needed "op" (.named "Spanned2"), needed "rhs" (.named "Expr")]),
  ("Block", .record (some "`\x7b stmt* last_expr? \x7d`") [
    needed "stmts" (.list "Stmt"), omissible "last_expr" (.optional "Expr"), spanField]),
  ("BorrowExpr", .record
    (some "`&expr` or `&mut expr`. `mut_span` is the span of the `mut` keyword.") [
    omissible "mut_span" (.optional "Span"), needed "expr" (.named "Expr")]),
  ("BreakExpr", .record none [
    omissible "label" (.optional "Ident"), omissible "value" (.optional "Expr")]),
  ("CallExpr", .record none [
    needed "callee" (.named "Expr"), needed "args" (.named "Arguments")]),
  ("Else", .sum none [
    (holding "If" (.named "Expr")).noted
      "`else if ...`; the expression is always an [ExprKind::If]",
    holding "Block" (.named "Block")]),
  ("Expr", .record
    (some "Anything that has a value. Statements, blocks and loops are expressions\ntoo.") [
    needed "kind" (.named "ExprKind"), spanField]),
  ("ExprKind", .sum none formCases),
  ("FieldExpr", .record none [
    needed "expr" (.named "Expr"), needed "field" (.named "Ident")]),
  ("ForExpr", .record none [
    needed "var" (.named "Ident"), needed "iterator" (.named "Expr"),
    needed "body" (.named "Block")]),
  ("IfExpr", .record none [
    needed "cond" (.named "Expr"), needed "then" (.named "Block"),
    omissible "els" (.optional "Else")]),
  ("LabeledExpr", .record
    (some ("`label: \x7b ... \x7d`, or a labeled loop. The inner expression is a\n"
      ++ "[ExprKind::Block], [ExprKind::While], [ExprKind::For] or\n[ExprKind::Loop].")) [
    needed "label" (.named "Ident"), needed "expr" (.named "Expr")]),
  ("LoopExpr", .record none [needed "body" (.named "Block")]),
  ("Stmt", .record
    (some ("An expression in statement position. Without a semicolon, the expression\n"
      ++ "is block-like.")) [
    needed "expr" (.named "Expr"), needed "semicolon" .bool]),
  ("UnaryExpr", .record (some "Expression with one operand and an operator, such as `-1`.") [
    needed "op" (.named "Spanned3"), needed "expr" (.named "Expr")]),
  ("WhileExpr", .record none [
    needed "cond" (.named "Expr"), needed "body" (.named "Block")])]

/-- The definitions of what a file is made of. -/
def itemDefinitions : List (String × Definition) := [
  ("GlobalDef", .record
    (some ("A global definition:\n\n- `name :: value` and `name : ty : value` define a constant,\n"
      ++ "- `name := value` and `name : ty = value` define a mutable global.")) [
    needed "name" (.named "Ident"),
    omissible "ty" (.optional "TypeExpr"),
    needed "mutable" .bool,
    needed "value" (.named "Expr"),
    (needed "semicolon" .bool).noted "Whether the definition ended with a `;`"]),
  ("Item", .record none [needed "kind" (.named "ItemKind"), spanField]),
  ("ItemKind", .sum none [holding "GlobalDef" (.named "GlobalDef")])]

/-- The schema of files. -/
def fileSchema : Schema where
  title := "SourceFile"
  root := .record (some "A whole Lun source file.") [needed "items" (.list "Item"), spanField]
  definitions :=
    literalDefinitions ++ commonDefinitions ++ exprDefinitions ++ itemDefinitions

end LunSyntax
